import PointerTriage.Shape.Basic

namespace PointerTriage.Shape

inductive Mark where
  | buffer
  | pointer
  deriving DecidableEq, Repr

mutual

/-- The arrays, vectors and pointers of a shape, depth first and the outer before the inner. Pointees
are not entered. -/
def marks : Shape → List Mark
  | .array element _ | .vector element _ => .buffer :: marks element
  | .pointer _ => [.pointer]
  | .struct fields => fieldsMarks fields
  | .void | .int _ | .float _ | .function | .other => []

def fieldsMarks : List Shape → List Mark
  | [] => []
  | f :: fs => marks f ++ fieldsMarks fs

end

/-- One mark of the walk. -/
def Scan.see : Scan → Mark → Scan
  | .stopped r, _ => .stopped r
  | .walking _, .buffer => .walking true
  | .walking buffer, .pointer => .stopped buffer

theorem foldl_see_stopped (r : Bool) (ms : List Mark) :
    ms.foldl Scan.see (.stopped r) = .stopped r := by
  induction ms with
  | nil => rfl
  | cons m ms ih => exact ih

mutual

/-- The walk over a shape sees the marks of the shape, one after the other. -/
theorem scan_eq_foldl (t : Scan) (s : Shape) : scan t s = (marks s).foldl Scan.see t := by
  cases t with
  | stopped r => rw [scan, foldl_see_stopped]
  | walking buffer =>
    cases s with
    | array element len => exact scan_eq_foldl (.walking true) element
    | vector element len => exact scan_eq_foldl (.walking true) element
    | struct fields => exact scanFields_eq_foldl (.walking buffer) fields
    | _ => rfl

theorem scanFields_eq_foldl (t : Scan) (fields : List Shape) :
    scanFields t fields = (fieldsMarks fields).foldl Scan.see t := by
  cases fields with
  | nil => rfl
  | cons f fs =>
    rw [scanFields, fieldsMarks, List.foldl_append, ← scan_eq_foldl t f]
    exact scanFields_eq_foldl (scan t f) fs

end

/-- The first pointer decides, by the buffers before it. -/
theorem foldl_see_eq_stopped {buffer r : Bool} {ms : List Mark} :
    ms.foldl Scan.see (.walking buffer) = .stopped r ↔
      ∃ before after, ms = before ++ .pointer :: after ∧ .pointer ∉ before ∧
        r = (buffer || decide (.buffer ∈ before)) := by
  induction ms generalizing buffer with
  | nil => simp
  | cons m ms ih =>
    cases m with
    | pointer =>
      rw [List.foldl_cons, Scan.see, foldl_see_stopped]
      constructor
      · rintro ⟨⟩
        exact ⟨[], ms, rfl, List.not_mem_nil, by simp⟩
      · rintro ⟨before, after, hms, hpointer, rfl⟩
        cases before with
        | nil => simp
        | cons m before =>
          obtain ⟨rfl, -⟩ := List.cons.inj hms
          exact absurd List.mem_cons_self hpointer
    | buffer =>
      rw [List.foldl_cons, Scan.see, ih]
      constructor
      · rintro ⟨before, after, rfl, hpointer, rfl⟩
        exact ⟨.buffer :: before, after, rfl, by simpa using hpointer, by simp⟩
      · rintro ⟨before, after, hms, hpointer, rfl⟩
        cases before with
        | nil => simp at hms
        | cons m before =>
          obtain ⟨rfl, rfl⟩ := List.cons.inj hms
          exact ⟨before, after, rfl, fun h => hpointer (List.mem_cons_of_mem _ h), by simp⟩

/-- A walk with two flags. It ends at a pointer before any buffer, but goes on behind a pointer that
it has found behind one. -/
structure Flags where
  /-- A buffer was met. -/
  buffer : Bool
  /-- What the last pointer had before it. -/
  found : Bool
  deriving DecidableEq, Repr

mutual

/-- The flags after a shape, and whether the walk goes on. -/
def visit (w : Flags) : Shape → Flags × Bool
  | .array element _ | .vector element _ => visit { w with buffer := true } element
  | .pointer _ => ({ w with found := w.buffer }, w.buffer)
  | .struct fields => visitFields w fields
  | .void | .int _ | .float _ | .function | .other => (w, true)

def visitFields (w : Flags) : List Shape → Flags × Bool
  | [] => (w, true)
  | f :: fs =>
    let r := visit w f
    if r.2 then visitFields r.1 fs else r

end

def Flags.see (r : Flags × Bool) (m : Mark) : Flags × Bool :=
  if r.2 then
    match m with
    | .buffer => ({ r.1 with buffer := true }, true)
    | .pointer => ({ r.1 with found := r.1.buffer }, r.1.buffer)
  else r

theorem foldl_see_ended {r : Flags × Bool} (h : r.2 = false) (ms : List Mark) :
    ms.foldl Flags.see r = r := by
  induction ms with
  | nil => rfl
  | cons m ms ih =>
    have hsee : Flags.see r m = r := by simp [Flags.see, h]
    rw [List.foldl_cons, hsee, ih]

mutual

theorem visit_eq_foldl (w : Flags) (s : Shape) :
    visit w s = (marks s).foldl Flags.see (w, true) := by
  cases s with
  | array element len => exact visit_eq_foldl { w with buffer := true } element
  | vector element len => exact visit_eq_foldl { w with buffer := true } element
  | struct fields => exact visitFields_eq_foldl w fields
  | _ => rfl

theorem visitFields_eq_foldl (w : Flags) (fields : List Shape) :
    visitFields w fields = (fieldsMarks fields).foldl Flags.see (w, true) := by
  cases fields with
  | nil => rfl
  | cons f fs =>
    rw [visitFields, fieldsMarks, List.foldl_append, ← visit_eq_foldl w f]
    cases hgoes : (visit w f).2 with
    | true =>
      have hpair : visit w f = ((visit w f).1, true) := Prod.ext rfl hgoes
      rw [if_pos rfl, visitFields_eq_foldl (visit w f).1 fs, ← hpair]
    | false => rw [if_neg Bool.false_ne_true, foldl_see_ended hgoes]

end

/-- The flags of a walk that keeps the answer of its first pointer. -/
def Scan.flags : Scan → Flags × Bool
  | .walking buffer => (⟨buffer, false⟩, true)
  | .stopped afterBuffer => (⟨afterBuffer, afterBuffer⟩, afterBuffer)

/-- Behind its first pointer the walk with flags changes nothing: a buffer was met and found. -/
theorem see_flags (t : Scan) (m : Mark) : Flags.see t.flags m = (t.see m).flags := by
  rcases t with buffer | (_ | _) <;> cases m <;> rfl

theorem foldl_see_flags (t : Scan) (ms : List Mark) :
    ms.foldl Flags.see t.flags = (ms.foldl Scan.see t).flags := by
  induction ms generalizing t with
  | nil => rfl
  | cons m ms ih => rw [List.foldl_cons, List.foldl_cons, see_flags, ih]

theorem found_flags (t : Scan) : t.flags.1.found = decide (t = .stopped true) := by
  rcases t with buffer | (_ | _) <;> rfl

/-- A pointer follows a buffer exactly if the first pointer has a buffer before it. The walk with two
flags, which goes on to later pointers, finds the same. -/
theorem pointerAfterBuffer_iff_marks (s : Shape) :
    (s.pointerAfterBuffer = true ↔ ∃ before after, s.marks = before ++ .pointer :: after ∧
      .pointer ∉ before ∧ .buffer ∈ before) ∧
    (visit ⟨false, false⟩ s).1.found = s.pointerAfterBuffer := by
  constructor
  · rw [pointerAfterBuffer, decide_eq_true_iff, scan_eq_foldl, foldl_see_eq_stopped]
    simp
  · have hflags := foldl_see_flags (.walking false) s.marks
    rw [visit_eq_foldl, pointerAfterBuffer, scan_eq_foldl, ← found_flags, ← hflags]
    rfl

/-- The pointer of the inner structure comes first, and no later buffer counts. -/
example : (struct [struct [int 32, untyped], array (int 8) 16, untyped]).pointerAfterBuffer = false := by
  decide

end PointerTriage.Shape

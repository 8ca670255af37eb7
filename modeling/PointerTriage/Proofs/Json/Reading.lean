import PointerTriage.Json.Reader
import PointerTriage.Proofs.Json.Lexing

namespace PointerTriage.Json

/-- Values that are no containers. -/
def IsAtom : Json → Prop
  | .list _ | .record _ => False
  | _ => True

theorem IsPlain.isAtom {j : Json} (h : IsPlain j) : IsAtom j := by
  cases j with
  | list _ | record _ => cases h
  | _ => trivial

theorem Nested.imp {atom atom' : Json → Prop} (h : ∀ j, atom j → atom' j) {n : Nat} {j : Json}
    (hj : Nested atom n j) : Nested atom' n j := by
  induction hj with
  | atom hj => exact .atom (h _ hj)
  | list _ ih => exact .list ih
  | record _ ih => exact .record ih

/-- The tokens of a value deliver it to the container that is open. -/
def Reads (n : Nat) (j : Json) : Prop :=
  ∀ stack ts, stack.length + n ≤ maxDepth →
    run (.reading .value stack) (tokens j ++ ts) = (deliver j stack).bind (run · ts)

/-- No value starts with a closing bracket. -/
theorem run_valueOrClose (j : Json) (stack : List Frame) (ts : List Token) :
    run (.reading .valueOrClose stack) (tokens j ++ ts) =
      run (.reading .value stack) (tokens j ++ ts) := by
  cases j with
  | list items => cases items <;> rfl
  | record entries =>
    cases entries with
    | nil => rfl
    | cons e es => rfl
  | _ => rfl

theorem run_items {n : Nat} {js : List Json} (h : ∀ j ∈ js, Reads n j) {stack : List Frame}
    (hdepth : stack.length + 1 + n ≤ maxDepth) (before : List Json) (ts : List Token) :
    run (.reading .next (.list before :: stack)) (itemTokens js ++ ts) =
      run (.reading .next (.list (js.reverse ++ before) :: stack)) ts := by
  induction js generalizing before with
  | nil => rfl
  | cons j js ih =>
    obtain ⟨hj, hjs⟩ := List.forall_mem_cons.mp h
    have hread := hj (.list before :: stack) (itemTokens js ++ ts) hdepth
    simp only [itemTokens, List.cons_append, List.append_assoc]
    change run (.reading .value (.list before :: stack)) _ = _
    rw [hread]
    change run (.reading .next (.list (j :: before) :: stack)) _ = _
    rw [ih hjs, List.reverse_cons, List.append_assoc]
    rfl

theorem run_entries {n : Nat} {es : List (String × Json)} (h : ∀ e ∈ es, Reads n e.2)
    {stack : List Frame} (hdepth : stack.length + 1 + n ≤ maxDepth) (before : List (String × Json))
    (ts : List Token) :
    run (.reading .next (.record before :: stack)) (entryTokens es ++ ts) =
      run (.reading .next (.record (es.reverse ++ before) :: stack)) ts := by
  induction es generalizing before with
  | nil => rfl
  | cons e es ih =>
    obtain ⟨k, j⟩ := e
    obtain ⟨hj, hes⟩ := List.forall_mem_cons.mp h
    have hread := hj (.field before k :: stack) (entryTokens es ++ ts) hdepth
    simp only [entryTokens, List.cons_append, List.append_assoc]
    change run (.reading .value (.field before k :: stack)) _ = _
    rw [hread]
    change run (.reading .next (.record ((k, j) :: before) :: stack)) _ = _
    rw [ih hes, List.reverse_cons, List.append_assoc]
    rfl

theorem run_enter {stack : List Frame} (h : stack.length < maxDepth) (phase : Phase) (frame : Frame)
    (ts : List Token) :
    (enter phase frame stack).bind (run · ts) = run (.reading phase (frame :: stack)) ts := by
  rw [enter, if_pos h, Option.bind_some]

theorem reads_list {n : Nat} {js : List Json} (h : ∀ j ∈ js, Reads n j) :
    Reads (n + 1) (.list js) := by
  intro stack ts hdepth
  have hopen : stack.length < maxDepth := by omega
  cases js with
  | nil =>
    change (enter .valueOrClose (.list []) stack).bind (run · (.closeList :: ts)) = _
    rw [run_enter hopen]
    rfl
  | cons j js =>
    obtain ⟨hj, hjs⟩ := List.forall_mem_cons.mp h
    have hinside : stack.length + 1 + n ≤ maxDepth := by omega
    simp only [tokens, List.cons_append, List.append_assoc, List.nil_append]
    change (enter .valueOrClose (.list []) stack).bind (run · _) = _
    rw [run_enter hopen, run_valueOrClose, hj (.list [] :: stack) _ hinside]
    change run (.reading .next (.list [j] :: stack)) _ = _
    rw [run_items hjs hinside]
    change (deliver (.list (js.reverse ++ [j]).reverse) stack).bind (run · ts) = _
    rw [← List.reverse_cons, List.reverse_reverse]

theorem reads_record {n : Nat} {es : List (String × Json)} (h : ∀ e ∈ es, Reads n e.2) :
    Reads (n + 1) (.record es) := by
  intro stack ts hdepth
  have hopen : stack.length < maxDepth := by omega
  cases es with
  | nil =>
    change (enter .keyOrClose (.record []) stack).bind (run · (.closeRecord :: ts)) = _
    rw [run_enter hopen]
    rfl
  | cons e es =>
    obtain ⟨k, j⟩ := e
    obtain ⟨hj, hes⟩ := List.forall_mem_cons.mp h
    have hinside : stack.length + 1 + n ≤ maxDepth := by omega
    simp only [tokens, List.cons_append, List.append_assoc, List.nil_append]
    change (enter .keyOrClose (.record []) stack).bind (run · _) = _
    rw [run_enter hopen]
    change run (.reading .value (.field [] k :: stack)) _ = _
    rw [hj (.field [] k :: stack) _ hinside]
    change run (.reading .next (.record [(k, j)] :: stack)) _ = _
    rw [run_entries hes hinside]
    change (deliver (.record (es.reverse ++ [(k, j)]).reverse) stack).bind (run · ts) = _
    rw [← List.reverse_cons, List.reverse_reverse]

theorem reads_of_nested {n : Nat} {j : Json} (h : Nested IsAtom n j) : Reads n j := by
  induction h with
  | @atom n j h =>
    intro stack ts _
    cases j with
    | list _ | record _ => cases h
    | _ => rfl
  | list _ ih => exact reads_list ih
  | record _ ih => exact reads_record ih

/-- A plain value within the limit is read back from its text, in either layout. -/
theorem parse?_write {j : Json} (h : Nested IsPlain maxDepth j) (layout : Layout) :
    parse? (String.ofList (write layout 0 j)) = some j := by
  have hread := reads_of_nested (h.imp fun _ => IsPlain.isAtom) [] [] (Nat.zero_add _).le
  rw [List.append_nil] at hread
  rw [parse?, tokens?_write h, Option.bind_some, ofTokens?, hread]
  rfl

/-- The values that an open container holds so far. -/
def Frame.held : Frame → List Json
  | .list before => before
  | .record before | .field before _ => before.map Prod.snd

/-- No container is too deep, and what it holds does not nest deeper than the levels left. -/
def Shallow : List Frame → Prop
  | [] => True
  | frame :: stack => stack.length < maxDepth ∧ Shallow stack ∧
      ∀ j ∈ frame.held, Nested IsAtom (maxDepth - (stack.length + 1)) j

def State.Shallow : State → Prop
  | .reading _ stack => Json.Shallow stack
  | .finished j => Nested IsAtom maxDepth j

def Token.IsRead (t : Token) : Prop := ∀ j, t = .atom j → IsAtom j

theorem shallow_deliver {j : Json} {stack : List Frame} (hs : Shallow stack)
    (hj : Nested IsAtom (maxDepth - stack.length) j) {s : State} (h : deliver j stack = some s) :
    s.Shallow := by
  unfold deliver at h
  split at h
  · cases h
    exact hj
  · cases h
    obtain ⟨hdepth, hrest, hheld⟩ := hs
    exact ⟨hdepth, hrest, List.forall_mem_cons.mpr ⟨hj, hheld⟩⟩
  · cases h
    obtain ⟨hdepth, hrest, hheld⟩ := hs
    exact ⟨hdepth, hrest, List.forall_mem_cons.mpr ⟨hj, hheld⟩⟩
  · cases h

theorem shallow_close {stack : List Frame} (hs : Shallow stack) {t : Token} {s : State}
    (h : close stack t = some s) : s.Shallow := by
  unfold close at h
  split at h
  · split at h
    · rename_i before rest
      obtain ⟨hdepth, hrest, hheld⟩ := hs
      refine shallow_deliver hrest ?_ h
      rw [show maxDepth - rest.length = maxDepth - (rest.length + 1) + 1 by omega]
      exact .list fun j hj => hheld j (List.mem_reverse.mp hj)
    · cases h
  · split at h
    · rename_i before rest
      obtain ⟨hdepth, hrest, hheld⟩ := hs
      refine shallow_deliver hrest ?_ h
      rw [show maxDepth - rest.length = maxDepth - (rest.length + 1) + 1 by omega]
      exact .record fun e he => hheld e.2 (List.mem_map_of_mem (List.mem_reverse.mp he))
    · cases h
  · cases h

theorem shallow_enter {phase : Phase} {frame : Frame} (hframe : frame.held = [])
    {stack : List Frame} (hs : Shallow stack) {s : State} (h : enter phase frame stack = some s) :
    s.Shallow := by
  obtain ⟨hdepth, he⟩ := Option.ite_none_right_eq_some.mp h
  cases he
  refine ⟨hdepth, hs, ?_⟩
  rw [hframe]
  nofun

theorem shallow_startValue {stack : List Frame} (hs : Shallow stack) {t : Token} (ht : t.IsRead)
    {s : State} (h : startValue stack t = some s) : s.Shallow := by
  unfold startValue at h
  split at h
  · exact shallow_deliver hs (.atom (ht _ rfl)) h
  · refine shallow_deliver hs (.atom ?_) h
    trivial
  · exact shallow_enter rfl hs h
  · exact shallow_enter rfl hs h
  · cases h

theorem shallow_startKey {stack : List Frame} (hs : Shallow stack) {t : Token} {s : State}
    (h : startKey stack t = some s) : s.Shallow := by
  unfold startKey at h
  split at h
  · split at h
    · cases h
      exact hs
    · cases h
  · cases h

theorem shallow_step {s s' : State} (hs : s.Shallow) {t : Token} (ht : t.IsRead)
    (h : step s t = some s') : s'.Shallow := by
  unfold step at h
  split at h
  · cases h
  · exact shallow_startValue hs ht h
  · split at h
    · exact shallow_close hs h
    · exact shallow_startValue hs ht h
  · exact shallow_startKey hs h
  · split at h
    · exact shallow_close hs h
    · exact shallow_startKey hs h
  · split at h
    · cases h
      exact hs
    · cases h
  · split at h
    · cases h
      exact hs
    · cases h
      exact hs
    · exact shallow_close hs h

theorem shallow_run {s s' : State} (hs : s.Shallow) {ts : List Token} (hts : ∀ t ∈ ts, t.IsRead)
    (h : run s ts = some s') : s'.Shallow := by
  induction ts generalizing s with
  | nil =>
    cases h
    exact hs
  | cons t ts ih =>
    obtain ⟨ht, hts⟩ := List.forall_mem_cons.mp hts
    obtain ⟨next, hstep, hrun⟩ := Option.bind_eq_some_iff.mp h
    exact ih (shallow_step hs ht hstep) hts hrun

theorem isAtom_of_number? {cs : List Char} {j : Json} (h : number? cs = some j) : IsAtom j := by
  unfold number? at h
  extract_lets negative unsigned whole rest at h
  split at h
  · cases h
  · split at h
    · cases h
      trivial
    · split at h
      · cases h
        trivial
      · obtain ⟨_, _, rfl⟩ := Option.map_eq_some_iff.mp h
        trivial

theorem isAtom_of_word? {cs : List Char} {j : Json} (h : word? cs = some j) : IsAtom j := by
  unfold word? at h
  split at h
  · cases h
    trivial
  · split at h
    · cases h
      trivial
    · split at h
      · cases h
        trivial
      · cases h

theorem isRead_of_mark? {c : Char} {t : Token} (h : mark? c = some t) : t.IsRead := by
  rintro j rfl
  unfold mark? at h
  split at h <;> cases h

/-- No token of a text stands for a container. -/
theorem isRead_of_tokensAfter {before ts : List Token} {cs : List Char}
    (hbefore : ∀ t ∈ before, t.IsRead) (h : tokensAfter before cs = some ts) :
    ∀ t ∈ ts, t.IsRead := by
  fun_induction tokensAfter before cs with
  | case1 before =>
    cases h
    exact fun t ht => hbefore t (List.mem_reverse.mp ht)
  | case2 before c cs hspace ih => exact ih hbefore h
  | case3 => cases h
  | case4 before cs hspace s rest hquoted ih =>
    refine ih (List.forall_mem_cons.mpr ⟨?_, hbefore⟩) h
    rintro j ⟨⟩
  | case5 before c cs hspace hquote t hmark ih =>
    exact ih (List.forall_mem_cons.mpr ⟨isRead_of_mark? hmark, hbefore⟩) h
  | case6 => cases h
  | case7 before c cs hspace hquote hmark hnumber j hj ih =>
    refine ih (List.forall_mem_cons.mpr ⟨?_, hbefore⟩) h
    rintro _ ⟨⟩
    exact isAtom_of_number? hj
  | case8 => cases h
  | case9 before c cs hspace hquote hmark hnumber j hj ih =>
    refine ih (List.forall_mem_cons.mpr ⟨?_, hbefore⟩) h
    rintro _ ⟨⟩
    exact isAtom_of_word? hj

/-- What is read from a text does not nest deeper than the limit. -/
theorem nested_of_parse? {s : String} {j : Json} (h : parse? s = some j) :
    Nested IsAtom maxDepth j := by
  obtain ⟨ts, htokens, hts⟩ := Option.bind_eq_some_iff.mp h
  unfold ofTokens? at hts
  split at hts
  · rename_i hrun
    cases hts
    have hshallow : (State.reading .value []).Shallow := trivial
    exact shallow_run hshallow (isRead_of_tokensAfter (List.forall_mem_nil _) htokens) hrun
  · cases hts

end PointerTriage.Json

import PointerTriage.Proofs.Yaml.Reading
import PointerTriage.Proofs.Yaml.Values
import PointerTriage.Settings.Yaml

namespace PointerTriage.Settings
open Yaml

/-- The node is legible and the data is read from it, in whatever document it stands. -/
structure Written {α : Type} (read : Document → Node → Reading α) (n : Node) (a : α) : Prop where
  legible : n.Legible
  reads (d : Document) : read d n = pure a

theorem written_text (s : String) : Written Document.text (.text s) s :=
  ⟨.scalar (suits_styleOf s), fun _ => rfl⟩

theorem written_variant (s : String) : Written Document.variant (.text s) s :=
  ⟨.scalar (suits_styleOf s), fun _ => rfl⟩

theorem written_typed {α : Type} {value? : String → Option α} {s : String} {a : α} (type : String)
    (hs : Scanner.Suits .plain s.toList) (h : value? s = some a) :
    Written (fun d => d.typed type value?) (.plain s) a := by
  refine ⟨.scalar hs, fun d => ?_⟩
  have hread : d.typed type value? (.plain s) = (value? s : Option α) := rfl
  rw [hread, h]
  rfl

theorem written_nat {bound n : Nat} (h : n < bound) :
    Written (fun d => d.natBelow bound) (natNode n) n := by
  refine written_typed _ (suits_numeral ?_) ?_
  · rw [Nat.toString_eq_repr, Nat.toList_repr]
    exact numeral_toDigits n false
  · rw [Core.natural?_toString, Option.filter_some, if_pos (by simpa using h)]

theorem written_int {lo hi i : Int} (h : lo ≤ i ∧ i ≤ hi) :
    Written (fun d => d.intBetween lo hi) (intNode i) i := by
  refine written_typed _ (suits_numeral ?_) ?_
  · rw [toList_toString]
    simpa using numeral_toDigits i.natAbs (i < 0)
  · rw [Core.integer?_toString, Option.filter_some, if_pos (by simpa using h)]

theorem written_bool (b : Bool) : Written Document.bool (boolNode b) b := by
  cases b <;> exact written_typed _ ⟨by decide, by decide⟩ (by decide)

theorem written_double {x : Decimal.Binary64} (h : x ≠ .nan) :
    Written Document.double (.plain (x.write percentileStyle)) x := by
  refine written_typed _ ?_ (Core.double?_write h rfl)
  cases x with
  | nan => exact absurd rfl h
  | infinite negative => cases negative <;> exact ⟨by decide, by decide⟩
  | finite negative m e hm => exact suits_numeral (numeral_write percentileStyle negative hm)

theorem mapM_map_eq_pure {α β : Type} {write : α → β} {read : β → Reading α} {as : List α}
    (h : ∀ a ∈ as, read (write a) = pure a) : (as.map write).mapM read = pure as := by
  induction as with
  | nil => rfl
  | cons a as ih =>
    obtain ⟨ha, has⟩ := List.forall_mem_cons.mp h
    rw [List.map_cons, List.mapM_cons, ha, ih has]
    rfl

theorem written_list {α : Type} {read : Document → Node → Reading α} {write : α → Node} {as : List α}
    (h : ∀ a ∈ as, Written read (write a) a) :
    Written (fun d => d.listOf (read d)) (.list (as.map write)) as := by
  refine ⟨.list ?_, fun d => ?_⟩
  · rw [List.forall_mem_map]
    exact fun a ha => (h a ha).legible
  · have hread : d.listOf (read d) (.list (as.map write)) = (as.map write).mapM (read d) := rfl
    rw [hread, mapM_map_eq_pure fun a ha => (h a ha).reads d]

/-- A name of a field: short, of small letters and underscores. -/
def isFieldName (s : String) : Bool :=
  s.toList.all isNameChar && s.toList ≠ [] && s.toList.length ≤ longestKey

theorem isKey_of_isFieldName {s : String} (h : isFieldName s = true) : (Node.plain s).IsKey := by
  simp only [isFieldName, Bool.and_eq_true, decide_eq_true_eq, List.all_eq_true] at h
  obtain ⟨⟨hchars, hne⟩, hshort⟩ := h
  refine ⟨s.toList, by rw [String.ofList_toList], suits_name hchars hne, ?_⟩
  rwa [width_name hchars]

theorem legible_record {fields : List (String × Node)}
    (hnames : (fields.map (·.1)).all isFieldName = true) (h : ∀ f ∈ fields, f.2.Legible) :
    (record fields).Legible := by
  refine .mapping ?_ ?_
  · rw [List.forall_mem_map]
    exact fun f hf => isKey_of_isFieldName (List.all_eq_true.mp hnames f.1 (List.mem_map_of_mem hf))
  · rw [List.forall_mem_map]
    exact h

/-- A record is read field by field, if it has only known fields and each one once. -/
theorem fields_record {names : List String} {fields : List (String × Node)}
    (hsub : (fields.map (·.1)).Sublist names) (hnodup : names.Nodup) (closed : Bool) (d : Document) :
    d.fields closed names (record fields) = pure fields := by
  have hknown : fields.filter (names.contains ·.1) = fields :=
    List.filter_eq_self.mpr fun f hf => by simpa using hsub.subset (List.mem_map_of_mem hf)
  have hread : d.fields closed names (record fields) = (do
      let entries ← (fields.map fun f => (Node.plain f.1, f.2)).mapM fun e =>
        return (← d.text e.1, e.2)
      let known := entries.filter (names.contains ·.1)
      if (known.map (·.1)).Nodup ∧ (closed → known.length = entries.length) then pure known
      else failure) := rfl
  have hentries : (fields.map fun f => (Node.plain f.1, f.2)).mapM
      (fun e => return (← d.text e.1, e.2)) = (pure fields : Reading _) :=
    mapM_map_eq_pure fun _ _ => rfl
  rw [hread, hentries]
  simp only [pure_bind, hknown, hnodup.sublist hsub, implies_true, and_self, if_true]

section Lookup

variable {α : Type} {f : Node → Reading α} {default : α} {name key : String} {n : Node}
  {fields : List (String × Node)}

@[simp] theorem required_self : Record.required ((key, n) :: fields) key f = f n := by
  simp only [Record.required, Record.get?, List.find?_cons, beq_self_eq_true]
  rfl

@[simp] theorem required_of_ne (h : name ≠ key) :
    Record.required ((name, n) :: fields) key f = Record.required fields key f := by
  simp [Record.required, Record.get?, h]

@[simp] theorem withDefault_self : Record.withDefault ((key, n) :: fields) key default f = f n := by
  simp [Record.withDefault, Record.get?]

@[simp] theorem withDefault_of_ne (h : name ≠ key) :
    Record.withDefault ((name, n) :: fields) key default f =
      Record.withDefault fields key default f := by
  simp [Record.withDefault, Record.get?, h]

end Lookup

/-- Whatever is read has the property. -/
def Ensures {α : Type} (r : Reading α) (p : α → Prop) : Prop :=
  ∀ patience a patience', r patience = some (a, patience') → p a

section Ensures

variable {α β : Type} {p : α → Prop} {q : β → Prop}

theorem ensures_true (r : Reading α) : Ensures r fun _ => True := fun _ _ _ _ => trivial

theorem ensures_pure {a : α} (h : p a) : Ensures (pure a) p := by
  intro patience b patience' hb
  cases hb
  exact h

theorem ensures_failure : Ensures (failure : Reading α) p := nofun

theorem ensures_lift {o : Option α} (h : ∀ a ∈ o, p a) : Ensures (liftM o : Reading α) p := by
  cases o with
  | none => exact nofun
  | some a => exact ensures_pure (h a rfl)

theorem Ensures.bind {r : Reading β} {f : β → Reading α} (hr : Ensures r q)
    (hf : ∀ b, q b → Ensures (f b) p) : Ensures (r >>= f) p := by
  intro patience a patience'' h
  obtain ⟨⟨b, patience'⟩, hb, ha⟩ := Option.bind_eq_some_iff.mp h
  exact hf b (hr patience b patience' hb) patience' a patience'' ha

theorem ensures_bind {r : Reading β} {f : β → Reading α} (hf : ∀ b, Ensures (f b) p) :
    Ensures (r >>= f) p :=
  (ensures_true r).bind fun b _ => hf b

theorem Ensures.mapM {f : β → Reading α} (h : ∀ b, Ensures (f b) p) (bs : List β) :
    Ensures (bs.mapM f) fun as => ∀ a ∈ as, p a := by
  induction bs with
  | nil => exact ensures_pure nofun
  | cons b bs ih =>
    rw [List.mapM_cons]
    exact (h b).bind fun a ha => ih.bind fun as has => ensures_pure (List.forall_mem_cons.mpr ⟨ha, has⟩)

theorem ensures_typed {value? : String → Option α} (h : ∀ s, ∀ a ∈ value? s, p a) (d : Document)
    (type : String) (n : Node) : Ensures (d.typed type value? n) p := by
  refine ensures_bind fun n => ?_
  split
  · exact ensures_lift (h _)
  · split
    · exact ensures_lift (h _)
    · exact ensures_failure
  · exact ensures_failure

theorem ensures_natBelow (d : Document) (bound : Nat) (n : Node) :
    Ensures (d.natBelow bound n) (· < bound) := by
  refine ensures_typed ?_ d _ n
  intro s a ha
  simpa using (Option.filter_eq_some_iff.mp ha).2

theorem ensures_intBetween (d : Document) (lo hi : Int) (n : Node) :
    Ensures (d.intBetween lo hi n) fun i => lo ≤ i ∧ i ≤ hi := by
  refine ensures_typed ?_ d _ n
  intro s a ha
  simpa using (Option.filter_eq_some_iff.mp ha).2

theorem Ensures.listOf {f : Node → Reading α} (h : ∀ n, Ensures (f n) p) (d : Document) (n : Node) :
    Ensures (d.listOf f n) fun as => ∀ a ∈ as, p a := by
  refine ensures_bind fun n => ?_
  split
  · exact Ensures.mapM h _
  · split
    · exact ensures_pure nofun
    · exact ensures_failure

theorem Ensures.map {r : Reading α} (h : Ensures r p) : Ensures (some <$> r) fun o => ∀ a ∈ o, p a := by
  rw [map_eq_pure_bind]
  refine h.bind fun a ha => ensures_pure ?_
  rintro _ ⟨⟩
  exact ha

theorem Ensures.option {f : Node → Reading α} (h : ∀ n, Ensures (f n) p) (d : Document) (n : Node) :
    Ensures (d.option f n) fun o => ∀ a ∈ o, p a := by
  refine ensures_bind fun n => ?_
  split
  · split
    · split
      · exact ensures_pure nofun
      · exact ensures_failure
    · exact (h _).map
  · split
    · exact ensures_pure nofun
    · exact (h _).map
  · exact (h _).map

theorem Ensures.required {f : Node → Reading α} (h : ∀ n, Ensures (f n) p)
    (fields : List (String × Node)) (key : String) : Ensures (Record.required fields key f) p :=
  ensures_bind h

theorem Ensures.withDefault {f : Node → Reading α} (h : ∀ n, Ensures (f n) p) {default : α}
    (hdefault : p default) (fields : List (String × Node)) (key : String) :
    Ensures (Record.withDefault fields key default f) p := by
  unfold Record.withDefault
  split
  · exact ensures_pure hdefault
  · exact h _

end Ensures

end PointerTriage.Settings

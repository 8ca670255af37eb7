import PointerTriage.Json.Decode
import PointerTriage.Proofs.Json.Reading

namespace PointerTriage.Json

/-- The data is read back as it is written, and what is written is plain and nests at most so deep. -/
structure Settled {α : Type} (n : Nat) (write : α → Json) (read : Json → Option α) (a : α) : Prop where
  read_write : read (write a) = some a
  nested : Nested IsPlain n (write a)

/-- What is read from a value that nests at most so deep is settled, within the same depth. -/
def Settles {α : Type} (n : Nat) (write : α → Json) (read : Json → Option α) : Prop :=
  ∀ j, Nested IsAtom n j → ∀ a, read j = some a → Settled n write read a

theorem nested_list_iff {atom : Json → Prop} {items : List Json} (h : ¬atom (.list items)) {n : Nat} :
    Nested atom n (.list items) ↔ ∃ m, n = m + 1 ∧ ∀ j ∈ items, Nested atom m j := by
  constructor
  · intro hn
    cases hn with
    | atom ha => exact absurd ha h
    | list hitems => exact ⟨_, rfl, hitems⟩
  · rintro ⟨m, rfl, hitems⟩
    exact .list hitems

theorem nested_record_iff {atom : Json → Prop} {entries : List (String × Json)}
    (h : ¬atom (.record entries)) {n : Nat} :
    Nested atom n (.record entries) ↔ ∃ m, n = m + 1 ∧ ∀ e ∈ entries, Nested atom m e.2 := by
  constructor
  · intro hn
    cases hn with
    | atom ha => exact absurd ha h
    | record hentries => exact ⟨_, rfl, hentries⟩
  · rintro ⟨m, rfl, hentries⟩
    exact .record hentries

theorem settles_text (n : Nat) : Settles n .text text? := by
  intro j _ s h
  cases j with
  | text s' => exact ⟨rfl, .atom trivial⟩
  | _ => cases h

theorem settles_bool (n : Nat) : Settles n .bool bool? := by
  intro j _ b h
  cases j with
  | bool b' => exact ⟨rfl, .atom trivial⟩
  | _ => cases h

theorem settles_nat {bound : Nat} (hbound : bound ≤ 18446744073709551616) (n : Nat) :
    Settles n .nat (natBelow? bound) := by
  intro j _ a h
  unfold natBelow? at h
  split at h
  · obtain ⟨hlt, he⟩ := Option.ite_none_right_eq_some.mp h
    cases he
    refine ⟨if_pos hlt, .atom ⟨?_, ?_⟩⟩ <;> omega
  · cases h

section

variable {α : Type} {n : Nat} {write : α → Json} {read : Json → Option α}

theorem Settled.list {as : List α} (h : ∀ a ∈ as, Settled n write read a) :
    Settled (n + 1) (fun as => .list (as.map write)) (listOf? read) as := by
  have hread : (as.map write).mapM read = some as := by
    induction as with
    | nil => rfl
    | cons a as ih =>
      obtain ⟨ha, has⟩ := List.forall_mem_cons.mp h
      rw [List.map_cons, List.mapM_cons, ha.read_write, ih has]
      rfl
  refine ⟨hread, .list ?_⟩
  rw [List.forall_mem_map]
  exact fun a ha => (h a ha).nested

theorem settled_nil : Settled (n + 1) (fun as => .list (as.map write)) (listOf? read) [] :=
  Settled.list (List.forall_mem_nil _)

theorem Settles.mapM (h : Settles n write read) {items : List Json}
    (hitems : ∀ j ∈ items, Nested IsAtom n j) {as : List α} (has : items.mapM read = some as) :
    ∀ a ∈ as, Settled n write read a := by
  induction items generalizing as with
  | nil =>
    cases has
    exact List.forall_mem_nil _
  | cons j items ih =>
    obtain ⟨hj, hitems⟩ := List.forall_mem_cons.mp hitems
    rw [List.mapM_cons] at has
    obtain ⟨a, ha, has⟩ := Option.bind_eq_some_iff.mp has
    obtain ⟨rest, hrest, he⟩ := Option.bind_eq_some_iff.mp has
    cases he
    exact List.forall_mem_cons.mpr ⟨h j hj a ha, ih hitems hrest⟩

theorem Settles.list (h : Settles n write read) :
    Settles (n + 1) (fun as => .list (as.map write)) (listOf? read) := by
  intro j hj as has
  cases j with
  | list items =>
    obtain ⟨m, hm, hitems⟩ := (nested_list_iff id).mp hj
    cases hm
    exact .list (h.mapM hitems has)
  | _ => cases has

theorem option?_of_ne_null {j : Json} (h : j ≠ .null) : option? read j = (read j).map some := by
  cases j with
  | null => exact absurd rfl h
  | _ => rfl

theorem settled_none : Settled n (.option write) (option? read) none := ⟨rfl, .atom trivial⟩

theorem Settles.option (h : Settles n write read) (hnull : ∀ a, write a ≠ .null) :
    Settles n (.option write) (option? read) := by
  intro j hj o ho
  by_cases hj' : j = .null
  · subst hj'
    cases ho
    exact settled_none
  · rw [option?_of_ne_null hj'] at ho
    obtain ⟨a, ha, rfl⟩ := Option.map_eq_some_iff.mp ho
    obtain ⟨hread, hnested⟩ := h j hj a ha
    refine ⟨?_, hnested⟩
    change option? read (write a) = _
    rw [option?_of_ne_null (hnull a), hread, Option.map_some]

theorem mem_of_get? {entries : List (String × Json)} {key : String} {j : Json}
    (h : get? entries key = some j) : ∃ e ∈ entries, e.2 = j := by
  obtain ⟨e, he, hj⟩ := Option.map_eq_some_iff.mp h
  exact ⟨e, List.mem_of_find?_eq_some he, hj⟩

@[simp] theorem get?_cons (e : String × Json) (entries : List (String × Json)) (key : String) :
    get? (e :: entries) key = if e.1 = key then some e.2 else get? entries key := by
  by_cases h : e.1 = key <;> simp [get?, h]

variable {entries : List (String × Json)} (hentries : ∀ e ∈ entries, Nested IsAtom n e.2)
  {key : String}
include hentries

theorem Settles.required (h : Settles n write read) {a : α}
    (ha : required entries key read = some a) : Settled n write read a := by
  obtain ⟨j, hj, ha⟩ := Option.bind_eq_some_iff.mp ha
  obtain ⟨e, he, rfl⟩ := mem_of_get? hj
  exact h e.2 (hentries e he) a ha

theorem Settles.withDefault (h : Settles n write read) {default : α}
    (hdefault : Settled n write read default) {a : α}
    (ha : withDefault entries key read default = some a) : Settled n write read a := by
  unfold Json.withDefault at ha
  split at ha
  · cases ha
    exact hdefault
  · rename_i j hj
    obtain ⟨e, he, rfl⟩ := mem_of_get? hj
    exact h e.2 (hentries e he) a ha

end

/-- The fields of a record nest one level less than the record. -/
theorem nested_of_fields? {closed : Bool} {names : List String} {j : Json}
    {entries : List (String × Json)} (h : fields? closed names j = some entries) {n : Nat}
    (hj : Nested IsAtom (n + 1) j) : ∀ e ∈ entries, Nested IsAtom n e.2 := by
  cases j with
  | record all =>
    obtain ⟨_, he⟩ := Option.ite_none_right_eq_some.mp h
    cases he
    obtain ⟨_, hn, hall⟩ := (nested_record_iff id).mp hj
    cases hn
    exact fun e he => hall e (List.mem_filter.mp he).1
  | list items =>
    obtain ⟨_, he⟩ := Option.ite_none_right_eq_some.mp h
    cases he
    obtain ⟨_, hn, hitems⟩ := (nested_list_iff id).mp hj
    cases hn
    exact fun e he => hitems e.2 (List.of_mem_zip he).2
  | _ => cases h

theorem mem_of_tagged? {inner : Bool} {tag : String} {variants : List String} {j content : Json}
    {name : String} (h : tagged? inner tag variants j = some (name, content)) : name ∈ variants := by
  have hvariant : ∀ j, variant? inner variants j = some name → name ∈ variants := by
    intro j hj
    unfold variant? at hj
    split at hj
    · obtain ⟨hmem, he⟩ := Option.ite_none_right_eq_some.mp hj
      cases he
      exact hmem
    · obtain ⟨_, he⟩ := Option.ite_none_right_eq_some.mp hj
      exact List.mem_of_getElem? he
    · cases hj
  unfold tagged? at h
  split at h
  · split at h
    · obtain ⟨_, hname, he⟩ := Option.map_eq_some_iff.mp h
      cases he
      exact hvariant _ hname
    · cases h
  · obtain ⟨_, hname, he⟩ := Option.map_eq_some_iff.mp h
    cases he
    exact hvariant _ hname
  · cases h

/-- What a variant carries nests no deeper than the whole, which is a container. -/
theorem nested_of_tagged? {inner : Bool} {tag : String} {variants : List String} {j content : Json}
    {name : String} (h : tagged? inner tag variants j = some (name, content)) {n : Nat}
    (hj : Nested IsAtom n j) : ∃ m, n = m + 1 ∧ Nested IsAtom (m + 1) content := by
  unfold tagged? at h
  split at h
  · split at h
    · obtain ⟨_, _, he⟩ := Option.map_eq_some_iff.mp h
      cases he
      obtain ⟨m, rfl, hall⟩ := (nested_record_iff id).mp hj
      exact ⟨m, rfl, .record fun e he => hall e (List.mem_filter.mp he).1⟩
    · cases h
  · obtain ⟨_, _, he⟩ := Option.map_eq_some_iff.mp h
    cases he
    obtain ⟨m, rfl, hitems⟩ := (nested_list_iff id).mp hj
    exact ⟨m, rfl, .list (List.forall_mem_cons.mp hitems).2⟩
  · cases h

/-- A record of some of the fields, each of them once, has these fields. -/
@[simp] theorem fields?_record {closed : Bool} {names : List String} {entries : List (String × Json)}
    (hkeys : ∀ e ∈ entries, e.1 ∈ names) (hnodup : (entries.map Prod.fst).Nodup) :
    fields? closed names (.record entries) = some entries := by
  have hknown : entries.filter (names.contains ·.1) = entries :=
    List.filter_eq_self.mpr fun e he => List.contains_iff_mem.mpr (hkeys e he)
  simp only [fields?, hknown]
  exact if_pos ⟨hnodup, fun _ => trivial⟩

theorem tagged?_record {inner : Bool} {tag name : String} {variants : List String}
    {entries : List (String × Json)} (hname : name ∈ variants) (htag : ∀ e ∈ entries, e.1 ≠ tag) :
    tagged? inner tag variants (.record ((tag, .text name) :: entries)) =
      some (name, .record entries) := by
  have hown : entries.filter (·.1 == tag) = [] := by
    simpa [List.filter_eq_nil_iff] using htag
  have hrest : entries.filter (·.1 != tag) = entries := by
    simpa [List.filter_eq_self] using htag
  simp [tagged?, hown, hrest, variant?, hname]

end PointerTriage.Json

import Mathlib
import PointerTriage.Proofs.PointsTo.Objects
import PointerTriage.Proofs.Saturation
import PointerTriage.Proofs.Users

namespace PointerTriage

/-- The pairs of a relation, counted by what they lead to. -/
theorem Relation.size_eq_sum_inverse {r s : Relation} {n : Nat}
    (hinverse : ∀ a b, a ∈ s.image b ↔ b ∈ r.image a) (h : ∀ a, ∀ b ∈ r.image a, b < n) :
    r.size = ∑ b ∈ Finset.range n, (s.image b).size := by
  have hrange : Set.MapsTo Prod.snd (r.pairs.toFinset : Set (Nat × Nat)) (Finset.range n) := by
    intro pair hpair
    have hpair : pair ∈ r.pairs := List.mem_toFinset.mp hpair
    exact Finset.mem_coe.mpr (Finset.mem_range.mpr (h pair.1 pair.2 (mem_pairs.mp hpair)))
  have hfibre : ∀ b, ({pair ∈ r.pairs.toFinset | pair.2 = b} : Finset _).card =
      (s.image b).size := by
    intro b
    have hsame : ({pair ∈ r.pairs.toFinset | pair.2 = b} : Finset _) =
        (s.image b).toList.toFinset.image (·, b) := by
      ext pair
      obtain ⟨a, b'⟩ := pair
      simp only [Finset.mem_filter, List.mem_toFinset, mem_pairs, Finset.mem_image, Prod.mk.injEq,
        ← IdSet.mem_def, hinverse]
      constructor
      · intro hex
        obtain ⟨hb, rfl⟩ := hex
        exact ⟨a, hb, rfl, rfl⟩
      · intro hex
        obtain ⟨_, hb, rfl, rfl⟩ := hex
        exact ⟨hb, rfl⟩
    rw [hsame, Finset.card_image_of_injective _ (Prod.mk_left_injective b),
      List.toFinset_card_of_nodup (IdSet.nodup _)]
    rfl
  calc r.size = r.pairs.toFinset.card := by
        rw [List.toFinset_card_of_nodup r.nodup_pairs, length_pairs]
    _ = ∑ b ∈ Finset.range n, ({pair ∈ r.pairs.toFinset | pair.2 = b} : Finset _).card :=
        Finset.card_eq_sum_card_fiberwise hrange
    _ = ∑ b ∈ Finset.range n, (s.image b).size := Finset.sum_congr rfl fun b _ => hfibre b

namespace PointsTo

inductive Update where
  | site (v : ValueId)
  | shape (o : ObjectId) (s : Shape)
  | pair (v : ValueId) (o : ObjectId)

namespace Update

def apply (p : PointsTo) : Update → PointsTo
  | .site v => (p.addLocation v).1
  | .shape o s => p.setShape o s
  | .pair v o => p.add v o

def site? : Update → Option ValueId
  | .site v => some v
  | _ => none

end Update

def updated (updates : List Update) : PointsTo := updates.foldl Update.apply empty

/-- The sites that updates register, first registered first; an object is a position in this list. -/
def sitesOf (updates : List Update) : List ValueId := (updates.filterMap Update.site?).eraseDups

/-- The value is the site of the object, or an update relates the two when the object is known. -/
def Related (updates : List Update) (v : ValueId) (o : ObjectId) : Prop :=
  (sitesOf updates)[o]? = some v ∨
    ComesWhen updates (.pair v o) fun before => o < (sitesOf before).length

theorem sitesOf_append (updates more : List Update) :
    ∃ new, sitesOf (updates ++ more) = sitesOf updates ++ new := by
  rw [sitesOf, List.filterMap_append, List.eraseDups_append]
  exact ⟨_, rfl⟩

theorem sitesOf_concat_site (updates : List Update) (v : ValueId) :
    sitesOf (updates ++ [.site v]) =
      if v ∈ sitesOf updates then sitesOf updates else sitesOf updates ++ [v] := by
  rw [sitesOf, List.filterMap_append]
  exact eraseDups_concat _ v

theorem sitesOf_concat_of_none (updates : List Update) {u : Update} (hu : u.site? = none) :
    sitesOf (updates ++ [u]) = sitesOf updates := by
  simp [sitesOf, hu]

/-- The facts are what the updates ask for, from both ends. -/
structure Reflects (p : PointsTo) (updates : List Update) : Prop where
  paired : p.Paired
  sites : p.locations.map Location.site = sitesOf updates
  pairs : ∀ v o, o ∈ p.objects v ↔ Related updates v o

section

variable {p : PointsTo} {updates : List Update} (h : p.Reflects updates)
include h

theorem Reflects.length : p.locations.length = (sitesOf updates).length := by
  rw [← h.sites, List.length_map]

theorem Reflects.site (v : ValueId) : (p.addLocation v).1.Reflects (updates ++ [.site v]) := by
  cases hv : p.locationAt? v with
  | some known =>
    -- A known site changes nothing.
    have hmem : v ∈ sitesOf updates :=
      List.mem_of_getElem? ((h.paired.locationAt?_eq_some_iff h.sites).mp hv)
    have hsites : sitesOf (updates ++ [.site v]) = sitesOf updates := by
      rw [sitesOf_concat_site, if_pos hmem]
    rw [addLocation_of_known hv]
    refine ⟨h.paired, h.sites.trans hsites.symm, ?_⟩
    intro w o
    rw [h.pairs, Related, Related, hsites, comesWhen_concat]
    simp
  | none =>
    have hmem := h.paired.locationAt?_eq_none_iff.mp hv
    rw [h.sites] at hmem
    have hsites : sitesOf (updates ++ [.site v]) = sitesOf updates ++ [v] := by
      rw [sitesOf_concat_site, if_neg hmem]
    refine ⟨h.paired.addLocation v, ?_, ?_⟩
    · rw [locations_addLocation hv, List.map_append, h.sites, hsites]
      rfl
    · intro w o
      rw [mem_objects_addLocation hv, h.pairs, Related, Related, hsites,
        getElem?_concat_eq_some_iff, comesWhen_concat, h.length, eq_comm (a := v)]
      simp only [reduceCtorEq, false_and, or_false]
      tauto

theorem Reflects.shape (o : ObjectId) (s : Shape) :
    (p.setShape o s).Reflects (updates ++ [.shape o s]) := by
  have hsites := sitesOf_concat_of_none updates (u := .shape o s) rfl
  refine ⟨h.paired.setShape o s, by rw [sites_setShape, h.sites, hsites], ?_⟩
  intro v q
  change q ∈ p.objects v ↔ _
  rw [h.pairs, Related, Related, hsites, comesWhen_concat]
  simp

theorem Reflects.pair (v : ValueId) (o : ObjectId) :
    (p.add v o).Reflects (updates ++ [.pair v o]) := by
  have hsites := sitesOf_concat_of_none updates (u := .pair v o) rfl
  refine ⟨h.paired.add v o, by rw [locations_add, h.sites, hsites], ?_⟩
  intro w q
  rw [mem_objects_add, h.pairs, h.length, Related, Related, hsites, comesWhen_concat]
  simp only [Update.pair.injEq]
  constructor
  · intro hor
    rcases hor with ⟨rfl, rfl, ho⟩ | hor
    · exact .inr (.inr ⟨⟨rfl, rfl⟩, ho⟩)
    · exact hor.imp_right .inl
  · intro hor
    rcases hor with hsite | hpair | ⟨⟨rfl, rfl⟩, ho⟩
    · exact .inr (.inl hsite)
    · exact .inr (.inr hpair)
    · exact .inl ⟨rfl, rfl, ho⟩

theorem Reflects.apply (u : Update) : (u.apply p).Reflects (updates ++ [u]) := by
  cases u with
  | site v => exact h.site v
  | shape o s => exact h.shape o s
  | pair v o => exact h.pair v o

end

theorem reflects_updated (updates : List Update) : (updated updates).Reflects updates := by
  induction updates using List.reverseRecOn with
  | nil =>
    refine ⟨paired_empty, rfl, ?_⟩
    intro v o
    exact iff_of_false (Relation.not_mem_image_empty v o) (by simp [Related, sitesOf, comesWhen_nil])
  | append_singleton updates u ih =>
    rw [updated, List.foldl_append]
    exact ih.apply u

theorem Related.lt_length {updates : List Update} {v : ValueId} {o : ObjectId}
    (h : Related updates v o) : o < (sitesOf updates).length := by
  rcases h with hsite | ⟨before, after, rfl, ho⟩
  · exact (List.getElem?_eq_some_iff.mp hsite).1
  · obtain ⟨new, hnew⟩ := sitesOf_append before (.pair v o :: after)
    rw [hnew, List.length_append]
    exact Nat.lt_of_lt_of_le ho (Nat.le_add_right _ _)

/-- The answers about pointers fit together. -/
structure Consistent (p : PointsTo) : Prop where
  /-- Pointers are found from their objects, and objects from their pointers. -/
  inverse : ∀ v o, o ∈ p.objects v ↔ v ∈ p.pointers o
  objects_ascending : ∀ v, (p.objects v).toList.Pairwise (· < ·)
  pointers_ascending : ∀ o, (p.pointers o).toList.Pairwise (· < ·)
  registered : ∀ v, ∀ o ∈ p.objects v, ∃ site, p.site? o = some site
  /-- A site has one object, and an object one site. -/
  sites : ∀ site o, p.locationAt? site = some o ↔ p.site? o = some site
  own : ∀ site o, p.site? o = some site → o ∈ p.objects site
  /-- A pair is added if it is reported to be new, and nothing else is added. -/
  added : ∀ v o w q, q ∈ (p.relate v o).1.objects w ↔
    q ∈ p.objects w ∨ ((p.relate v o).2 = true ∧ w = v ∧ q = o)
  reported : ∀ v o, (p.relate v o).2 = true ↔
    ∃ w q, q ∈ (p.relate v o).1.objects w ∧ q ∉ p.objects w
  /-- The pointers to the objects of a value are the values that it may alias. -/
  aliases : ∀ c : Context, c.pointsTo = p.answers →
    ∀ a b, b ∈ c.aliases a ↔ p.mayAlias a b = true
  symmetric : ∀ a b, p.mayAlias a b = p.mayAlias b a
  edges : p.stats.edges = ∑ o ∈ Finset.range p.locations.length, (p.pointers o).size

section

variable {p : PointsTo}

theorem relate_new_iff {v : ValueId} {o : ObjectId} :
    (p.relate v o).2 = true ↔ o < p.locations.length ∧ o ∉ p.objects v := by
  rcases p.relate_cases v o with ⟨hlt, hnew, he⟩ | ⟨hold, he⟩
  · simp [he, hlt, hnew]
  · simpa [he] using hold

theorem mem_objects_relate {v w : ValueId} {o q : ObjectId} :
    q ∈ (p.relate v o).1.objects w ↔
      q ∈ p.objects w ∨ ((p.relate v o).2 = true ∧ w = v ∧ q = o) := by
  refine mem_objects_add.trans ?_
  rw [relate_new_iff]
  constructor
  · intro hor
    by_cases hold : q ∈ p.objects w
    · exact .inl hold
    · obtain ⟨rfl, rfl, ho⟩ := hor.resolve_right hold
      exact .inr ⟨⟨ho, hold⟩, rfl, rfl⟩
  · intro hor
    rcases hor with hold | ⟨⟨ho, _⟩, rfl, rfl⟩
    · exact .inr hold
    · exact .inl ⟨rfl, rfl, ho⟩

theorem mayAlias_iff {a b : ValueId} :
    p.mayAlias a b = true ↔ ∃ o, o ∈ p.objects a ∧ o ∈ p.objects b :=
  IdSet.meets_iff

end

theorem Reflects.consistent {p : PointsTo} {updates : List Update} (h : p.Reflects updates) :
    p.Consistent := by
  have hlt : ∀ v, ∀ o ∈ p.objects v, o < p.locations.length := by
    intro v o ho
    rw [h.length]
    exact ((h.pairs v o).mp ho).lt_length
  refine
    { inverse := fun v o => (h.paired.inverse v o).symm
      objects_ascending := fun v => (p.objects v).ascending
      pointers_ascending := fun o => (p.pointers o).ascending
      registered := ?_
      sites := h.paired.index
      own := ?_
      added := fun v o w q => mem_objects_relate
      reported := ?_
      aliases := ?_
      symmetric := ?_
      edges := Relation.size_eq_sum_inverse h.paired.inverse hlt }
  · intro v o ho
    exact ⟨_, by rw [site?, List.getElem?_eq_getElem (hlt v o ho), Option.map_some]⟩
  · intro site o hown
    rw [site?_eq, h.sites] at hown
    exact (h.pairs site o).mpr (.inl hown)
  · intro v o
    constructor
    · intro hnew
      exact ⟨v, o, mem_objects_relate.mpr (.inr ⟨hnew, rfl, rfl⟩), (relate_new_iff.mp hnew).2⟩
    · intro hex
      obtain ⟨w, q, hq, hold⟩ := hex
      exact ((mem_objects_relate.mp hq).resolve_left hold).1
  · intro c hc a b
    rw [Context.mem_aliases, mayAlias_iff, hc]
    exact exists_congr fun o => and_congr_right fun _ => h.paired.inverse b o
  · intro a b
    rw [Bool.eq_iff_iff, mayAlias_iff, mayAlias_iff]
    exact exists_congr fun o => and_comm

/-- After any updates the objects are the distinct sites that were registered, in order, a value points
to what it is the site of and to the objects that were related to it when they were known, and the
answers fit together. -/
theorem consistent_updated (updates : List Update) :
    let p := updated updates
    p.locations.map Location.site = sitesOf updates ∧
    (∀ v o, o ∈ p.objects v ↔ Related updates v o) ∧
    p.Consistent := by
  intro p
  have h : p.Reflects updates := reflects_updated updates
  exact ⟨h.sites, h.pairs, h.consistent⟩

-- The first pair comes before its object is known and is lost; the last two change nothing.
example :
    (updated [.pair 5 0, .site 3, .pair 6 0, .site 3, .pair 6 1]).stats = ⟨2, 1, 2, 1⟩ := by decide

end PointsTo

end PointerTriage

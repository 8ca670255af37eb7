import PointerTriage.Proofs.BoundCheck.Guards
import PointerTriage.Proofs.BoundCheck.Nearest

namespace PointerTriage

/-- Control can go from a comparison to where the node is. -/
def Program.Preceded (p : Program) (n : NodeId) : Prop :=
  ∃ start l d, p.control.location? n = some start ∧ p.Compares l ∧ p.control.LeadsTo start d l

namespace BoundCheck

variable {c : Context} {n : NodeId} {start : LocationId}

theorem one_le_maxBackwardCmps (c : Context) : 1 ≤ c.settings.bound.maxBackwardCmps :=
  (Settings.Bound.check_ok_iff.mp c.settings.bound_valid).1.1

/-- From every location on a path against the control flow, control can go to its start. -/
theorem leadsTo_of_isChain {path : Path} {l : LocationId} {d : Nat}
    (hl : c.control.LeadsTo start d l)
    (hsteps : (l :: path).IsChain fun l p => p ∈ c.control.predecessors l) :
    ∀ p ∈ l :: path, ∃ d, c.control.LeadsTo start d p := by
  induction path generalizing l d with
  | nil =>
    intro p hp
    rw [List.mem_singleton.mp hp]
    exact ⟨d, hl⟩
  | cons next path ih =>
    obtain ⟨hstep, hrest⟩ := List.isChain_cons_cons.mp hsteps
    obtain ⟨e, he, rfl, rfl⟩ := ControlFlow.mem_predecessors.mp hstep
    intro p hp
    rcases List.mem_cons.mp hp with rfl | hp
    · exact ⟨d, hl⟩
    · exact ih (.edge he hl) hrest p hp

theorem Backward.leadsTo {path : Path} (h : Backward c start path) :
    ∀ l ∈ path, ∃ d, c.control.LeadsTo start d l := by
  obtain ⟨rest, rfl⟩ := List.head?_eq_some_iff.mp h.start
  exact leadsTo_of_isChain .here h.steps

/-- A comparison on a listed path leads to the node, also where the search was cut short. -/
theorem preceded_of_mem_paths {path : Path} {l : LocationId} (hpath : path ∈ (paths c n).leaves)
    (hl : l ∈ path) (hcmp : c.program.Compares l) : c.program.Preceded n := by
  obtain ⟨start, hstart, hbelow⟩ := below_of_mem_paths hpath
  have htree := reached_iff.mp (Graph.mem_below.mp hbelow)
  rw [List.reverse_reverse] at htree
  obtain ⟨d, hleads⟩ := htree.leadsTo l hl
  exact ⟨start, l, d, hstart, hcmp, hleads⟩

/-- As long as one comparison may be collected, none is collected only if there is none. -/
theorem cmps_eq_nil_iff {t : Tables} {host : HostFacts} {b : Built} (h : b.Parts t host)
    (settings : Settings)
    (hn : ∀ l, b.program.control.location? n = some l → ¬b.program.Compares l) :
    cmps (b.context settings) n = [] ↔ ¬b.program.Preceded n := by
  cases hl : b.program.control.location? n with
  | none =>
    have hl' : (b.context settings).control.location? n = none := hl
    refine iff_of_true (by rw [cmps, cmpsUpTo, hl']) ?_
    intro hex
    obtain ⟨start, _, _, hstart, _⟩ := hex
    rw [hl] at hstart
    cases hstart
  | some start =>
    have hstart := ControlFlow.mem_nodeIds_of_location h.control hl
    have hroom : settings.bound.maxBackwardCmps ≠ 0 :=
      Nat.ne_of_gt (one_le_maxBackwardCmps (b.context settings))
    change cmpsUpTo (b.context settings) settings.bound.maxBackwardCmps n = [] ↔ _
    rw [cmpsUpTo_eq_take h settings hl, List.take_eq_nil_iff, or_iff_right hroom,
      List.eq_nil_iff_forall_not_mem]
    constructor
    · intro hnone hex
      obtain ⟨start', l, d, hstart', hcmp, hleads⟩ := hex
      rw [hl] at hstart'
      cases hstart'
      -- The walk leaves its start out, which is no comparison.
      have hne : l ≠ start := fun he => hn start hl (he ▸ hcmp)
      exact hnone l ((mem_cmpsBefore h settings hstart).mpr ⟨hne, hcmp, d, hleads⟩)
    · intro hnone l hmem
      obtain ⟨_, hcmp, d, hleads⟩ := (mem_cmpsBefore h settings hstart).mp hmem
      exact hnone ⟨start, l, d, hl, hcmp, hleads⟩

/-- The bounds are the least and the greatest of the constants, if there are any. -/
inductive Classified (c : Context) (found : List LocationId) :
    BoundKind × Option Int × Option Int → Prop where
  | absent (h : found = []) : Classified c found (.none, none, none)
  | varying (h : found ≠ []) (hconstants : found.filterMap (constantRhs? c) = []) :
      Classified c found (.variable, none, none)
  | fixed {lo hi : Int} (hlo : (found.filterMap (constantRhs? c)).min? = some lo)
      (hhi : (found.filterMap (constantRhs? c)).max? = some hi) :
      Classified c found (.constant, some lo, some hi)

theorem classified_classify (c : Context) (found : List LocationId) :
    Classified c found (classify c found) := by
  unfold classify
  cases hconstants : found.filterMap (constantRhs? c) with
  | nil =>
    cases found with
    | nil => exact .absent rfl
    | cons l found => exact .varying (List.cons_ne_nil l found) hconstants
  | cons i is =>
    have hmem : i ∈ i :: is := List.mem_cons_self
    obtain ⟨lo, hlo⟩ := Option.isSome_iff_exists.mp (List.isSome_min?_of_mem hmem)
    obtain ⟨hi, hhi⟩ := Option.isSome_iff_exists.mp (List.isSome_max?_of_mem hmem)
    simp only [hlo, hhi]
    exact .fixed (hconstants ▸ hlo) (hconstants ▸ hhi)

section

variable {found : List LocationId} {r : BoundKind × Option Int × Option Int}
  (h : Classified c found r)
include h

theorem Classified.eq_none_iff : r.1 = .none ↔ found = [] := by
  cases h with
  | absent h => exact iff_of_true rfl h
  | varying h => exact iff_of_false nofun h
  | fixed hlo =>
    refine iff_of_false nofun ?_
    intro hempty
    simp [hempty] at hlo

theorem Classified.kind_of_ne_nil (hfound : found ≠ []) :
    r.1 = .constant ∨ r.1 = .variable := by
  cases h with
  | absent h => exact absurd h hfound
  | varying => exact .inr rfl
  | fixed => exact .inl rfl

theorem Classified.eq_constant_iff :
    r.1 = .constant ↔ ∃ lo hi, r.2.1 = some lo ∧ r.2.2 = some hi ∧ lo ≤ hi := by
  cases h with
  | absent => simp
  | varying => simp
  | @fixed lo hi hlo hhi =>
    have hleast := (List.min?_eq_some_iff.mp hlo).1
    have hgreatest := (List.max?_eq_some_iff.mp hhi).2
    exact iff_of_true rfl ⟨lo, hi, rfl, rfl, hgreatest lo hleast⟩

theorem Classified.unbounded (hr : r.1 ≠ .constant) : r.2.1 = none ∧ r.2.2 = none := by
  cases h with
  | absent => exact ⟨rfl, rfl⟩
  | varying => exact ⟨rfl, rfl⟩
  | fixed => exact absurd rfl hr

end

/-- The searches from a node that is at no comparison agree. The kind of bound is `none` exactly if no
comparison leads to the node, and then no listed path has one and none is guarded. So a guarded node
has a comparison and a kind of bound; it has bounds exactly if that is `constant`, the lower one no
greater than the upper one. -/
theorem searches_agree {t : Tables} {host : HostFacts} {b : Built}
    (hb : Built.ofTables t host = .ok b) (settings : Settings)
    (hn : ∀ l, b.program.control.location? n = some l → ¬b.program.Compares l) :
    let c := b.context settings
    let e := estimate c n
    (e.kind = .none ↔ ¬b.program.Preceded n) ∧
    (e.kind = .none →
      (∀ path ∈ (paths c n).leaves, ∀ l ∈ path, ¬b.program.Compares l) ∧ e.relevantPaths = 0) ∧
    (e.isGuarded = true → 1 ≤ e.cmpCount ∧ (e.kind = .constant ∨ e.kind = .variable)) ∧
    (e.kind = .constant ↔ ∃ lo hi, e.lower = some lo ∧ e.upper = some hi ∧ lo ≤ hi) ∧
    (e.kind ≠ .constant → e.lower = none ∧ e.upper = none) := by
  intro c e
  have hclass : Classified c (cmps c n) (e.kind, e.lower, e.upper) := classified_classify c _
  have hkind : e.kind = .none ↔ ¬b.program.Preceded n :=
    hclass.eq_none_iff.trans (cmps_eq_nil_iff (Built.ofTables_ok_iff.mp hb) settings hn)
  have hpaths : e.kind = .none →
      ∀ path ∈ (paths c n).leaves, ∀ l ∈ path, ¬b.program.Compares l := by
    intro hnone path hpath l hl hcmp
    exact hkind.mp hnone (preceded_of_mem_paths hpath hl hcmp)
  have hguarded : e.kind = .none → e.isGuarded = false := by
    intro hnone
    refine Bool.eq_false_iff.mpr fun hguarded => ?_
    obtain ⟨path, hpath, l, hl, hcmp, _⟩ := isGuarded_iff.mp hguarded
    exact hpaths hnone path hpath l hl (isCmp_iff.mp hcmp)
  refine ⟨hkind, ?_, ?_, hclass.eq_constant_iff, hclass.unbounded⟩
  · intro hnone
    exact ⟨hpaths hnone, by simpa [Estimate.isGuarded] using hguarded hnone⟩
  · intro hguard
    have hfound : cmps c n ≠ [] := by
      intro hempty
      rw [hguarded (hclass.eq_none_iff.mpr hempty)] at hguard
      cases hguard
    exact ⟨List.length_pos_iff.mpr hfound, hclass.kind_of_ne_nil hfound⟩

theorem not_compares_at {b : Built} {settings : Settings}
    (hl : b.program.control.location? n = some start)
    (hcmp : isCmp (b.context settings) start = false) :
    ∀ l, b.program.control.location? n = some l → ¬b.program.Compares l := by
  intro l hl' hcompares
  cases hl.symm.trans hl'
  rw [isCmp_iff.mpr hcompares] at hcmp
  cases hcmp

/-- The hasty search for the request is cut short, but finds its guard. In `relay` nothing is compared
on the way to the buffer. -/
theorem hasty_searches_agree :
    (∃ b, (request (.call (some "malloc") [])).build = .ok b ∧
      (∀ l, b.program.control.location? 5 = some l → ¬b.program.Compares l) ∧
      let e := estimate (b.context hasty) 5
      e.truncated = true ∧ e.isGuarded = true ∧ 1 ≤ e.cmpCount ∧
        (e.kind = .constant ∨ e.kind = .variable)) ∧
    ∃ b, relay.build = .ok b ∧
      (∀ l, b.program.control.location? 9 = some l → ¬b.program.Compares l) ∧
      let e := estimate (b.context hasty) 9
      e.kind = .none ∧ ¬b.program.Preceded 9 ∧ e.relevantPaths = 0 := by
  constructor
  · obtain ⟨b, hb, hvalues⟩ := exists_ok_of_map (x := (request (.call (some "malloc") [])).build)
      (f := fun b => (b.program.control.location? 5, isCmp (b.context hasty) 5,
        (estimate (b.context hasty) 5).truncated, (estimate (b.context hasty) 5).isGuarded))
      (y := (some 5, false, true, true)) (by decide +kernel)
    simp only [Prod.mk.injEq] at hvalues
    obtain ⟨hl, hcmp, hcut, hguarded⟩ := hvalues
    obtain ⟨_, _, _, htables⟩ := Snapshot.build_ok_iff.mp hb
    have hn := not_compares_at hl hcmp
    obtain ⟨_, _, hguard, _⟩ := searches_agree htables hasty hn
    exact ⟨b, hb, hn, hcut, hguarded, hguard hguarded⟩
  · obtain ⟨b, hb, hvalues⟩ := exists_ok_of_map (x := relay.build)
      (f := fun b => (b.program.control.location? 9, isCmp (b.context hasty) 9,
        (estimate (b.context hasty) 9).kind))
      (y := (some 9, false, .none)) (by decide +kernel)
    simp only [Prod.mk.injEq] at hvalues
    obtain ⟨hl, hcmp, hkind⟩ := hvalues
    obtain ⟨_, _, _, htables⟩ := Snapshot.build_ok_iff.mp hb
    have hn := not_compares_at hl hcmp
    obtain ⟨hnone, hpaths, _⟩ := searches_agree htables hasty hn
    exact ⟨b, hb, hn, hkind, hnone.mp hkind, (hpaths hkind).2⟩

end BoundCheck

end PointerTriage

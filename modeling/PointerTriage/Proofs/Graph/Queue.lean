import PointerTriage.Graph.Collect
import PointerTriage.Proofs.Graph.Distance

namespace PointerTriage.Graph

variable {α : Type} [DecidableEq α] (next : α → List α)

theorem enqueue_append (unmet queue bs cs : List α) : enqueue unmet queue (bs ++ cs) =
    enqueue (enqueue unmet queue bs).1 (enqueue unmet queue bs).2 cs := by
  induction bs generalizing unmet queue with
  | nil => rfl
  | cons b bs ih =>
    rw [List.cons_append, enqueue, enqueue]
    split
    · exact ih _ _
    · exact ih _ _

/-- What is queued comes after the queue, and does not depend on it. -/
theorem enqueue_eq (unmet queue bs : List α) : enqueue unmet queue bs =
    ((enqueue unmet [] bs).1, queue ++ (enqueue unmet [] bs).2) := by
  induction bs generalizing unmet queue with
  | nil => simp [enqueue]
  | cons b bs ih =>
    rw [enqueue, enqueue]
    split
    · rw [ih _ (queue ++ [b]), ih _ ([] ++ [b])]
      simp
    · exact ih _ _

theorem eraseDups_filter_erase {b : α} {unmet bs : List α} (hd : unmet.Nodup) :
    freshIn (unmet.erase b) bs = ((bs.filter (· ∈ unmet)).filter fun c => !c == b).eraseDups := by
  rw [freshIn, List.filter_filter]
  congr 1
  refine List.filter_congr fun c _ => ?_
  rw [Bool.eq_iff_iff]
  simp [hd.mem_erase_iff]

/-- The new elements of a wave are queued, and they are not unmet any more. -/
theorem enqueue_nil_eq {unmet : List α} (hd : unmet.Nodup) (bs : List α) :
    enqueue unmet [] bs = (without unmet (freshIn unmet bs), freshIn unmet bs) := by
  induction bs generalizing unmet with
  | nil => simp [enqueue, freshIn, without]
  | cons b bs ih =>
    rw [enqueue]
    split
    · rename_i hb
      have hfresh : freshIn unmet (b :: bs) = b :: freshIn (unmet.erase b) bs := by
        rw [eraseDups_filter_erase hd, freshIn, List.filter_cons_of_pos (by simpa using hb),
          List.eraseDups_cons]
      have hrest : without (unmet.erase b) (freshIn (unmet.erase b) bs) =
          without unmet (b :: freshIn (unmet.erase b) bs) := by
        rw [without, without, hd.erase_eq_filter, List.filter_filter]
        refine List.filter_congr fun c _ => ?_
        rw [Bool.eq_iff_iff]
        simp [and_comm]
      rw [enqueue_eq, ih (hd.erase b), hfresh, hrest]
      rfl
    · rename_i hb
      have hfresh : freshIn unmet (b :: bs) = freshIn unmet bs := by
        rw [freshIn, List.filter_cons_of_neg (by simpa using hb), freshIn]
      rw [ih hd, hfresh]

/-- Takes elements from a queue, and queues what they lead to and was not met, one deeper. -/
def explore (unmet : List α) (queue : List (α × Nat)) : List (α × Nat) :=
  match queue with
  | [] => []
  | (a, d) :: queue =>
    let more := enqueue unmet [] (next a)
    (a, d) :: explore more.1 (queue ++ more.2.map (·, d + 1))
termination_by unmet.length + queue.length
decreasing_by
  have hlength := length_enqueue unmet [] (next a)
  simp only [List.length_nil, List.length_append, List.length_map, List.length_cons] at hlength ⊢
  omega

/-- The walk from the seeds that lie in the domain. -/
def search (domain seeds : List α) : List (α × Nat) :=
  let start := enqueue domain [] seeds
  explore next start.1 (start.2.map (·, 0))

/-- A walk through elements of one depth goes on with the rest of the queue, and then with what these
lead to. -/
theorem explore_append (unmet part : List α) (d : Nat) (queue : List (α × Nat)) :
    explore next unmet (part.map (·, d) ++ queue) =
      part.map (·, d) ++ explore next (enqueue unmet [] (part.flatMap next)).1
        (queue ++ (enqueue unmet [] (part.flatMap next)).2.map (·, d + 1)) := by
  induction part generalizing unmet queue with
  | nil => simp [enqueue]
  | cons a part ih =>
    have hrest := enqueue_eq (enqueue unmet [] (next a)).1 (enqueue unmet [] (next a)).2
      (part.flatMap next)
    rw [List.map_cons, List.cons_append, explore, List.flatMap_cons, enqueue_append, hrest,
      List.append_assoc, ih]
    simp

/-- The queue holds one layer of the search after the other. -/
theorem explore_layer {domain : List α} (hd : domain.Nodup) (wave : List α) (d : Nat) :
    explore next (without domain (freshIn domain wave)) ((freshIn domain wave).map (·, d)) =
      (distances next domain wave).map (Prod.map id (· + d)) := by
  induction domain, wave using layers.induct next generalizing d with
  | case1 domain wave hl => simp [distances_eq_layer_append, hl, explore]
  | case2 domain wave a layer hl ih =>
    have hrest : (without domain (a :: layer)).Nodup := hd.filter _
    have hexplore := explore_append next (without domain (a :: layer)) (a :: layer) d []
    rw [List.append_nil, enqueue_nil_eq hrest, List.nil_append, ih hrest] at hexplore
    rw [distances_eq_layer_append, hl, hexplore]
    simp [Function.comp_def, Nat.add_comm, Nat.add_left_comm]

/-- A search with a queue meets each element at its distance, nearest first. -/
theorem search_eq_distances {domain : List α} (hd : domain.Nodup) (seeds : List α) :
    search next domain seeds = distances next domain seeds := by
  rw [search, enqueue_nil_eq hd, explore_layer next hd]
  exact List.map_id _

theorem reach_eq_search {domain : List α} (hd : domain.Nodup) (seeds : List α) :
    reach next domain seeds = (search next domain seeds).map (·.1) := by
  rw [search_eq_distances next hd, map_fst_distances]

end PointerTriage.Graph

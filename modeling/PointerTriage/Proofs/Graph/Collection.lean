import PointerTriage.Proofs.Graph.Queue

namespace PointerTriage.Graph

variable {α : Type} [DecidableEq α] (next : α → List α) (isHit : α → Bool)

theorem collect_nil (room : Nat) (unmet : List α) : collect next isHit room unmet [] = [] := by
  rw [collect]

/-- With no room left nothing is collected, wherever the walk goes. -/
theorem collect_of_full {room : Nat} (hroom : room = 0) (unmet queue : List α) :
    collect next isHit room unmet queue = [] := by
  fun_induction collect next isHit room unmet queue with
  | case1 => rfl
  | case2 _ _ _ _ _ ih => exact ih rfl
  | case3 room _ a _ hfull _ hhit _ =>
    rw [hhit, hroom] at hfull
    exact absurd rfl hfull
  | case4 _ _ _ _ _ _ _ ih => exact ih hroom

/-- A walk through the first part of a queue collects its hits, and goes on with the rest of the queue
and what that part leads to. -/
theorem collect_append (room : Nat) (unmet part queue : List α) :
    collect next isHit room unmet (part ++ queue) =
      (part.filter isHit).take room ++ collect next isHit (room - (part.filter isHit).length)
        (enqueue unmet queue (part.flatMap next)).1 (enqueue unmet queue (part.flatMap next)).2 := by
  induction part generalizing room unmet queue with
  | nil => simp [enqueue]
  | cons a part ih =>
    have hqueue : enqueue unmet (part ++ queue) (next a) = ((enqueue unmet queue (next a)).1,
        part ++ (enqueue unmet queue (next a)).2) := by
      rw [enqueue_eq unmet (part ++ queue), enqueue_eq unmet queue, List.append_assoc]
    rw [List.cons_append, collect, List.flatMap_cons, enqueue_append]
    cases hhit : isHit a with
    | false =>
      rw [List.filter_cons_of_neg (by simp [hhit]), ← ih]
      simp [hqueue]
    | true =>
      rw [List.filter_cons_of_pos hhit]
      cases room with
      | zero => simp [collect_of_full]
      | succ room => simp [hqueue, ih]

/-- What is collected from the first layer of a search on are the first hits of the search. -/
theorem collect_layer {domain : List α} (hd : domain.Nodup) (wave : List α) (room : Nat) :
    collect next isHit room (without domain (freshIn domain wave)) (freshIn domain wave) =
      ((reach next domain wave).filter isHit).take room := by
  induction domain, wave using layers.induct next generalizing room with
  | case1 domain wave hl => simp [reach_eq_layer_append, hl, collect_nil]
  | case2 domain wave a layer hl ih =>
    have hrest : (without domain (a :: layer)).Nodup := hd.filter _
    rw [reach_eq_layer_append, hl, List.filter_append, List.take_append]
    have hwalk := collect_append next isHit room
      (without domain (a :: layer)) (a :: layer) []
    rw [List.append_nil, enqueue_nil_eq hrest, ih hrest] at hwalk
    exact hwalk

/-- From one seed as many hits are collected as there is room for, in the order of the search. -/
theorem collect_eq_take {domain : List α} (hd : domain.Nodup) {seed : α} (hs : seed ∈ domain)
    (room : Nat) : collect next isHit room (domain.erase seed) [seed] =
      ((reach next domain [seed]).filter isHit).take room := by
  have hfresh : freshIn domain [seed] = [seed] := by simp [freshIn, hs, List.eraseDups_cons]
  have hrest : without domain [seed] = domain.erase seed := by
    rw [hd.erase_eq_filter, without]
    refine List.filter_congr fun a _ => ?_
    rw [Bool.eq_iff_iff]
    simp
  have hwalk := collect_layer next isHit hd [seed] room
  rwa [hfresh, hrest] at hwalk

end PointerTriage.Graph

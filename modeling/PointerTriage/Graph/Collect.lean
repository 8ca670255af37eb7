namespace PointerTriage.Graph

variable {α : Type} [DecidableEq α]

/-- Queues the elements that are unmet, each once: what is unmet then, and the queue. -/
def enqueue (unmet queue : List α) : List α → List α × List α
  | [] => (unmet, queue)
  | b :: bs =>
    if b ∈ unmet then enqueue (unmet.erase b) (queue ++ [b]) bs else enqueue unmet queue bs

theorem length_enqueue (unmet queue bs : List α) :
    (enqueue unmet queue bs).1.length + (enqueue unmet queue bs).2.length =
      unmet.length + queue.length := by
  induction bs generalizing unmet queue with
  | nil => rfl
  | cons b bs ih =>
    rw [enqueue]
    split
    · rename_i hb
      have hpos := List.length_pos_of_mem hb
      rw [ih, List.length_erase_of_mem hb, List.length_append, List.length_singleton]
      omega
    · exact ih unmet queue

/-- Takes elements from a queue, collects the hits among them while there is room, and queues the
neighbours that are unmet. With no room left it does not pass a hit. -/
def collect (next : α → List α) (isHit : α → Bool) (room : Nat) (unmet queue : List α) : List α :=
  match queue with
  | [] => []
  | a :: queue =>
    if isHit a && room == 0 then collect next isHit 0 unmet queue
    else
      let more := enqueue unmet queue (next a)
      if isHit a then a :: collect next isHit (room - 1) more.1 more.2
      else collect next isHit room more.1 more.2
termination_by unmet.length + queue.length
decreasing_by
  · simp
  all_goals
    have hlength := length_enqueue unmet queue (next a)
    simp only [List.length_cons]
    omega

end PointerTriage.Graph

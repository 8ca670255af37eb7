namespace PointerTriage.Graph

variable {α : Type} [DecidableEq α]

/-- The candidates that are still in the domain, each once. -/
def freshIn (domain wave : List α) : List α := (wave.filter (· ∈ domain)).eraseDups

theorem mem_freshIn {domain wave : List α} {a : α} :
    a ∈ freshIn domain wave ↔ a ∈ wave ∧ a ∈ domain := by
  simp [freshIn]

def without (domain layer : List α) : List α := domain.filter (· ∉ layer)

theorem length_without_lt {domain layer : List α} {a : α} (ha : a ∈ layer) (hd : a ∈ domain) :
    (without domain layer).length < domain.length := by
  apply List.length_filter_lt_length_iff_exists.2
  exact ⟨a, hd, by simp [ha]⟩

/-- From a wave of candidates the elements of the domain that are new make the next layer; they
leave the domain, and their neighbours are the next wave. -/
def layers (next : α → List α) (domain wave : List α) : List (List α) :=
  match _h : freshIn domain wave with
  | [] => []
  | a :: layer =>
    (a :: layer) :: layers next (without domain (a :: layer)) ((a :: layer).flatMap next)
termination_by domain.length
decreasing_by
  have ha : a ∈ freshIn domain wave := _h ▸ List.mem_cons_self
  exact length_without_lt List.mem_cons_self (mem_freshIn.1 ha).2

/-- What is reachable inside the domain from the seeds in it, seeds included, nearest first. -/
def reach (next : α → List α) (domain seeds : List α) : List α := (layers next domain seeds).flatten

/-- Each reachable element with its distance from the seeds. -/
def distances (next : α → List α) (domain seeds : List α) : List (α × Nat) :=
  (layers next domain seeds).zipIdx.flatMap fun (layer, d) => layer.map (·, d)

end PointerTriage.Graph

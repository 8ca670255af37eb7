import PointerTriage.Context
import PointerTriage.Proofs.Ir.Sound
import PointerTriage.Proofs.ValueFlow.Definitions

namespace PointerTriage.Built

structure Parts (b : Built) (t : Tables) (host : HostFacts) : Prop where
  ir : Ir.ofTables t = .ok b.program.ir
  targets : host.checkTargets b.program.ir = .ok ()
  calls : b.calls = host.targets.foldl (fun g target => g.addTarget target.1 target.2)
    (CallGraph.ofIr b.program.ir)
  pointsTo : b.pointsTo = (PointsTo.solve b.program.ir host).1
  flow : b.program.flow = ValueFlow.ofIr b.program.ir host b.pointsTo b.calls
  control : ControlFlow.ofIr b.program.ir b.calls b.program.flow = .ok b.program.control

theorem ofTables_ok_iff {t : Tables} {host : HostFacts} {b : Built} :
    ofTables t host = .ok b ↔ b.Parts t host := by
  unfold ofTables
  simp only [except_bind_ok_iff]
  constructor
  · intro hex
    obtain ⟨ir, hir, _, htargets, control, hcontrol, he⟩ := hex
    cases he
    exact ⟨hir, htargets, rfl, rfl, rfl, hcontrol⟩
  · intro hex
    obtain ⟨hir, htargets, hcalls, hpoints, hflow, hcontrol⟩ := hex
    refine ⟨_, hir, (), htargets, b.program.control, ?_, ?_⟩
    · rw [← hcontrol, hflow, hpoints, hcalls]
    · obtain ⟨⟨ir, flow, control⟩, pointsTo, calls⟩ := b
      dsimp only at hcalls hpoints hflow ⊢
      subst hflow hpoints hcalls
      rfl

theorem Parts.sound {b : Built} {t : Tables} {host : HostFacts} (h : b.Parts t host) :
    b.program.ir.tables.Sound := by
  obtain ⟨he, hs⟩ := Ir.ofTables_ok h.ir
  rwa [he]

theorem Parts.distinct {b : Built} {t : Tables} {host : HostFacts} (h : b.Parts t host) :
    b.program.flow.Distinct := by
  rw [h.flow]
  exact ValueFlow.distinct_ofIr h.sound

section

variable {b : Built} {t : Tables} {host : HostFacts} (h : b.Parts t host)
include h

theorem Parts.def_of_kind {v : ValueId} {value : Value} {kind : ValueFlow.NodeKind}
    (hv : b.program.ir.value? v = some value)
    (hk : ValueFlow.kindOf? b.program.ir host.allocators value = some kind) :
    ∃ n, b.program.flow.def? v = some n ∧ b.program.flow.node? n = some ⟨kind, v⟩ := by
  rw [h.flow]
  exact ValueFlow.def?_of_kind h.sound hv hk

theorem Parts.def_of_opcode {v : Value} (hv : v ∈ b.program.ir.values) {opcode : Opcode}
    (ho : v.opcode? = some opcode) (hb : opcode ≠ .branch) :
    ∃ n, b.program.flow.def? v.id = some n := by
  obtain ⟨kind, hk⟩ := kind_of_opcode b.program.ir host.allocators ho hb
  obtain ⟨n, hn, _⟩ := h.def_of_kind (h.sound.value?_of_mem hv) hk
  exact ⟨n, hn⟩

end

end PointerTriage.Built

namespace PointerTriage

/-- `main` stores its parameter in a stack slot and reads it back in a loop that a comparison ends. -/
def guardedLoop : Tables where
  values := #[
    ⟨0, some "n", .int 64, .argument 0 0, []⟩,
    ⟨1, some "slot", .pointerTo (.int 64), .instruction (.alloca (.int 64)) 0, []⟩,
    ⟨2, none, .void, .instruction .store 0, [0, 1]⟩,
    ⟨3, none, .void, .instruction .branch 0, []⟩,
    ⟨4, some "x", .int 64, .instruction .load 1, [1]⟩,
    ⟨5, some "less", .int 1, .instruction .icmp 1, [4, 0]⟩,
    ⟨6, none, .void, .instruction .branch 1, [5]⟩,
    ⟨7, none, .void, .instruction .ret 2, [4]⟩]
  functions := #[⟨0, "main", [0], [0, 1, 2], .void⟩]
  blocks := #[⟨0, 0, [1, 2, 3], [1]⟩, ⟨1, 0, [4, 5, 6], [1, 2]⟩, ⟨2, 0, [7], []⟩]
  loops := []

/-- A host that knows no more than the names of the allocators. -/
def plainHost : HostFacts := ⟨Settings.defaultAllocators, [], [], []⟩

theorem exists_ok_of_isOk {ε α : Type} {x : Except ε α} (h : x.isOk = true) : ∃ a, x = .ok a := by
  cases x with
  | error e => cases h
  | ok a => exact ⟨a, rfl⟩

theorem exists_ok_of_map {ε α β : Type} {x : Except ε α} {f : α → β} {y : β}
    (h : x.toOption.map f = some y) : ∃ a, x = .ok a ∧ f a = y := by
  cases x with
  | error e => cases h
  | ok a => exact ⟨a, rfl, Option.some.inj h⟩

theorem guardedLoop_builds : ∃ b, Built.ofTables guardedLoop plainHost = .ok b :=
  exists_ok_of_isOk (by decide)

theorem Settings.Stages.check_of_isOk {s : Settings.Stages} (h : s.check.isOk = true) :
    s.check = .ok () := by
  obtain ⟨_, hs⟩ := exists_ok_of_isOk h
  exact hs

theorem unchanged_check : (Settings.Draft.stages {}).check = .ok () :=
  Settings.Stages.check_of_isOk (by decide +kernel)

/-- The settings that nobody changed. -/
def Settings.unchanged : Settings := ⟨Draft.stages {}, unchanged_check⟩

end PointerTriage

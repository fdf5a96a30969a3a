import VkSandbox.Properties.Scenario
import VkSandbox.Properties.StateWrites
import VkSandbox.Provider.StateFormat

/-!
# Properties/FileFormat — the file on disk, as JSON

The machine keeps the decoded table on its disk: `WriteFile` stores `StateFile.marshal` of the
snapshot, and a load finds the table that is there.  `state_file_round_trip` discharges what this
takes for granted.  The JSON that `write` has put there, the encoding of a snapshot of the tables,
decodes to just that table, and so does the same file with members some other version has added to
it.
-/

namespace VkSandbox

open Interleave

variable {cfg : Config} {file : File} {tr : List Ev}
  {x : Interleave.Config State Memory Section Request Reply Tid Op Outcome}

/-- What `loadState` makes of a file with this JSON in it. -/
def readAs (j : Json) : File :=
  match decodeState j with
  | some st => .table st
  | none => .garbage

theorem readAs_of_decode {j : Json} {st : StateFile} (h : decodeState j = some st) :
    readAs j = .table st := by
  rw [readAs, h]

/-- **All times the tables have held** lie within RFC 3339. -/
def State.Storable (s : State) : Prop := ∀ m ∈ s.mem :: s.past, m.all.Storable

instance (s : State) : Decidable s.Storable := inferInstanceAs (Decidable (∀ m ∈ _, _))

theorem State.Storable.memAt {s : State} (h : s.Storable) {n : ℕ} {m : Memory}
    (hm : s.memAt n = some m) :
    m.all.Storable :=
  h m (List.mem_reverse.mp (List.mem_of_getElem? hm))

/-- A snapshot holds no other times. -/
theorem StateFile.Storable.snapshot {m : Memory} (h : m.all.Storable) (committing : Option Key) :
    (m.snapshot committing).Storable where
  claims := by
    intro k _ c hc
    have hrow := (Memory.lookup_snapshot.mp hc).1
    exact h.claims k (Finmap.mem_keys.mpr (Finmap.mem_of_lookup_eq_some hrow)) c hrow
  releasing := h.releasing

/-- **The file that was written is the file that is read**: in every state of every run, once the
file has been written, it is the JSON of the durable tables of one instant, and that JSON decodes to
the table the next load works with, whatever members another version adds to it. -/
theorem state_file_round_trip (h : Runs cfg file tr x) (hst : x.shared.Storable) {n : ℕ}
    (hn : x.shared.disk.instant = some n) :
    ∃ m committing, x.shared.memAt n = some m ∧
      ∀ j, pruneState j = pruneState (encodeState (m.snapshot committing)) →
        readAs j = x.shared.disk.file := by
  obtain ⟨m, committing, hm, hfile, -⟩ := h.projected.written n hn
  refine ⟨m, committing, hm, fun j hj => ?_⟩
  have hdecode : decodeState j = some (m.snapshot committing).marshal := by
    rw [← decodeState_pruneState, hj, decodeState_pruneState]
    exact decodeState_encodeState (.snapshot (hst.memAt hm) committing)
  rw [readAs_of_decode hdecode, hfile]

/-- The file a create leaves. -/
theorem state_file_round_trip_of_create : ∃ tr x n m committing, Runs fullConfig .absent tr x ∧
    x.shared.Storable ∧ x.shared.disk.instant = some n ∧ x.shared.memAt n = some m ∧
    readAs (encodeState (m.snapshot committing)) = x.shared.disk.file := by
  obtain ⟨tr, x, hrun, hst, hsome⟩ := exists_run fullConfig .absent
    (call .boot .new 10 {} ++
      call (.lifecycle "ns/p") (.createPod (samplePod "p" "u1" [])) 17
      { claimed := .ok (sampleResult "s1") })
    (fun _ s => s.Storable ∧ s.disk.instant.isSome = true) (by decide +kernel)
  obtain ⟨n, hn⟩ := Option.isSome_iff_exists.mp hsome
  obtain ⟨m, committing, hm, hread⟩ := state_file_round_trip hrun hst hn
  exact ⟨tr, x, n, m, committing, hrun, hst, hn, hm, hread _ rfl⟩

end VkSandbox

import VkSandbox.Properties.Scenario
import VkSandbox.Provider.Requests

/-!
# Properties/Unreadable — a state file that cannot be read is left alone

The state file may hold the only copy of the credentials of live sandboxes.  If `loadState` cannot
read or decode it, `New` returns the error: it does not list the node, claim, or write, and the
process ends.  So however often it is restarted, the file stays as it was and no Pod is served.
-/

namespace VkSandbox

open Interleave Interleave.Prog

variable {α : Type} {cfg : Config} {file : File} {tr : List Ev} {l : List Entry} {ev : Ev}
  {x x' : Interleave.Config State Memory Section Request Reply Tid Op Outcome}

/-- A read of the state file that gives a table, or that there is none. -/
def FileRead.Loads : FileRead → Prop
  | .absent | .decoded _ => True
  | .failed _ | .undecodable _ => False

/-- `New` has its table. -/
def HasTable (l : List Entry) : Prop := ∃ r s, (.asked .boot .readFile r, s) ∈ l ∧ FileRead.Loads r

theorem HasTable.snoc (h : HasTable l) (e : Entry) : HasTable (l ++ [e]) := by
  obtain ⟨r, s, hmem, hr⟩ := h
  exact ⟨r, s, List.mem_append_left _ hmem, hr⟩

/-- Before it has its table, `New` asks for the file and for nothing else. -/
def LoadsFirst (l : List Entry) (ev : Ev) (_ : State) : Prop :=
  ∀ t e r, ev = .asked t e r → e = .readFile ∨ HasTable l

theorem loadsFirst_of_hasTable {p : Code α} (h : HasTable l) :
    Text cfg .boot LoadsFirst (fun l' _ => HasTable l') p l :=
  Machine.Follows.free h (fun _ _ _ hl _ _ _ _ => .inr hl) fun _ e hl => hl.snoc e

theorem text_loadState (hsp : cfg.statePath) :
    Text cfg .boot LoadsFirst (fun l r => r = .ok () → HasTable l) (loadState cfg) [] := by
  unfold loadState
  split
  · next h => simp [hsp] at h
  refine Text.request fun r s _ _ => ⟨fun t e r he => .inl ?_, ?_⟩
  · cases he
    rfl
  have hread : FileRead.Loads r → HasTable [(.asked .boot .readFile r, s)] :=
    fun hr => ⟨r, s, List.mem_singleton_self _, hr⟩
  cases r with
  | absent => exact fun _ => hread trivial
  | failed err | undecodable err => exact nofun
  | decoded st => exact (loadsFirst_of_hasTable (hread trivial)).mono fun _ _ h _ => h

theorem text_new (hsp : cfg.statePath) :
    Text cfg .boot LoadsFirst (fun l r => r = .ok () → HasTable l) (new cfg) [] := by
  refine Machine.Follows.orReturn (text_loadState hsp) (fun _ _ _ he => by cases he)
    fun l u hl => ?_
  exact (loadsFirst_of_hasTable (hl rfl)).mono fun _ _ h _ => h

theorem follows_new (hsp : cfg.statePath) :
    Follows cfg .boot (fun _ => LoadsFirst) fun _ l r => r = .ok → HasTable l := by
  intro op s s' h
  obtain ⟨-, rfl⟩ | hm := mayCall_of_started h
  · refine Machine.Follows.map ((text_new hsp).mono fun l r hr he => hr ?_)
    cases r with
    | ok u => rfl
    | error e => cases he
  · cases op <;> cases hm

/-! ## Whole runs -/

/-- **No read of the state file has given a table.** -/
def Unreadable (tr : List Ev) : Prop := ∀ t r, .asked t .readFile r ∈ tr → ¬ FileRead.Loads r

theorem Unreadable.left {tr' : List Ev} (h : Unreadable (tr ++ tr')) : Unreadable tr :=
  fun t r hmem => h t r (List.mem_append_left _ hmem)

theorem Runs.not_hasTable (h : Runs cfg file tr x) (hun : Unreadable tr) :
    ¬ HasTable (journal cfg file .boot tr) := by
  rintro ⟨r, s, hmem, hr⟩
  obtain ⟨l₁, l₂, hj⟩ := List.append_of_mem hmem
  obtain ⟨tr₁, tr₂, x₁, x₂, rfl, -⟩ := h.entry hj
  exact hun .boot r (by simp) hr

/-- A file that does not decode gives no table. -/
theorem not_loads_of_garbage {t : Tid} {r : FileRead} {s s' : State}
    (ha : apply (.asked t .readFile r) s = some s') (hf : s.disk.file = .garbage) :
    ¬ FileRead.Loads r := by
  cases r with
  | failed err | undecodable err => exact id
  | absent | decoded st =>
    simp [apply, answer, hf] at ha

/-- What such a run leaves alone. -/
structure LeftAsIs (file : File) (tr : List Ev) (s : State) : Prop where
  file : s.disk.file = file
  down : s.phase ≠ .up
  asked : ∀ t e r, .asked t e r ∈ tr → t = .boot ∧ e = .readFile

theorem LeftAsIs.step (h : Runs cfg file tr x) (hsp : cfg.statePath) (hun : Unreadable tr)
    (hs : Step (machine cfg) x ev x') (hu : LeftAsIs file tr x.shared) :
    LeftAsIs file (tr ++ [ev]) x'.shared := by
  obtain ⟨hg, ha⟩ := h.next hs
  have hboot : ∀ {t}, ev.tid = some t → t = .boot := fun htid => by
    obtain ⟨hb, -⟩ | ⟨-, hup⟩ := hg.up_or_booting ha htid
    · exact hb
    · exact absurd hup hu.down
  -- without a table `New` asks for nothing but the file
  have hask : ∀ t e r, ev = .asked t e r → t = .boot ∧ e = .readFile := by
    rintro t e r rfl
    obtain rfl := hboot rfl
    obtain ⟨op, -, htext⟩ := h.asked (follows_new hsp) hs
    exact ⟨rfl, (htext _ _ _ rfl).resolve_right (h.not_hasTable hun)⟩
  refine ⟨?_, ?_, fun t e r hmem => ?_⟩
  · obtain ⟨hf, -⟩ | ⟨t, u, d, rfl, -⟩ := (effect ha).file
    · rw [hf, hu.file]
    · cases (hask t _ _ rfl).2
  · obtain hp | ⟨-, -, hp⟩ | ⟨op, rfl, -⟩ | ⟨-, hp⟩ := (effect ha).phase
    · rw [hp]
      exact hu.down
    · rw [hp]
      decide
    · exact absurd (h.finished (follows_new hsp) hs rfl) (h.not_hasTable hun)
    · rw [hp]
      decide
  · rcases List.mem_append.mp hmem with hmem | hmem
    · exact hu.asked t e r hmem
    · exact hask t e r (List.mem_singleton.mp hmem).symm

/-- **A state file that cannot be read is never replaced**, and no Pod is served from a guess at
what it holds: whether it does not decode or its reads fail, over any number of restarts the file
stays as it is, the provider does not come up, and the only thing it asks of anyone is that file. -/
theorem unreadable_file_untouched (h : Runs cfg file tr x) (hsp : cfg.statePath)
    (hfile : file = .garbage ∨ Unreadable tr) : LeftAsIs file tr x.shared := by
  suffices hboth : LeftAsIs file tr x.shared ∧ Unreadable tr from hboth.1
  induction h with
  | nil => exact ⟨⟨rfl, (fun he => by cases he), fun _ _ _ hmem => by cases hmem⟩,
      fun _ _ hmem => by cases hmem⟩
  | @snoc tr x ev x' h hs ih =>
    obtain ⟨hu, hun⟩ := ih (hfile.imp_right Unreadable.left)
    refine ⟨hu.step h hsp hun hs, ?_⟩
    obtain rfl | hall := hfile
    · intro t r hmem
      rcases List.mem_append.mp hmem with hmem | hmem
      · exact hun t r hmem
      · obtain rfl := List.mem_singleton.mp hmem
        exact not_loads_of_garbage (Step.apply hs) hu.file
    · exact hall

/-- Two processes start, one after the other, over a file that does not decode. -/
theorem unreadable_file_untouched_by_restart : ∃ tr x, Runs fullConfig .garbage tr x ∧
    tr.length = 6 ∧ LeftAsIs .garbage tr x.shared := by
  obtain ⟨tr, x, h, hlen⟩ := exists_run fullConfig .garbage
    (call .boot .new 2 { file := .undecodable "unexpected end of JSON input" } ++
      call .boot .new 2 { file := .failed "permission denied" })
    (fun tr _ => tr.length = 6)
    (by decide +kernel)
  exact ⟨tr, x, h, hlen, unreadable_file_untouched h rfl (.inl rfl)⟩

end VkSandbox

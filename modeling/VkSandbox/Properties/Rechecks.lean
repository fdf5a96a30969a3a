import VkSandbox.Provider.Journals
import VkSandbox.Properties.Leases

/-!
# Properties/Rechecks — a re-check releases what its verdict was about

One pass of the owner re-check, as its journal shows it:

    read             the rows it is about: preserved, pod-less, settled
    pruneRechecks    the backoff of every other key is forgotten
    rangeOver
    …                for each row:
    read               its backoff; not due yet, nothing more
    getOwner           the recorded owner, as the API server sees it
    withdrawForRelease   on a release verdict
    setRecheck         the backoff that follows from the verdict
    …                the drain of the queue, and the save

`RecheckText` says so of every entry a pass makes.  The rows are looked at once, at the beginning:
what a pass knows of a row is as old as that look.
-/

namespace VkSandbox

open Interleave Interleave.Prog

variable {cfg : Config} {now : Time} {base : ℕ} {k k' : Key} {c : Claim} {ev : Ev} {s : State}
  {l l' l₁ l₂ : List Entry}

/-! ## The text of a pass -/

/-- The rows a pass is about: those its first look found preserved. -/
def passRows : List Entry → Table Key Claim
  | [] => ∅
  | e :: _ => e.2.mem.preserved

theorem passRows_append (h : l ≠ []) : passRows (l ++ l') = passRows l := by
  obtain ⟨e, rest, rfl⟩ := List.exists_cons_of_ne_nil h
  rfl

theorem ne_nil_of_passRows (h : (passRows l).lookup k = some c) : l ≠ [] := by
  rintro rfl
  cases h

/-- The key whose backoff an event sets. -/
def setsBackoff : Ev → Option Key
  | .locked _ (.setRecheck key _) => some key
  | _ => none

/-- The key an owner is read for. -/
def readsOwner : Ev → Option Key
  | .asked _ (.getOwner key _ _ _) _ => some key
  | _ => none

/-- A pass has asked whether the claim of `k` may be destroyed. -/
def Asked (k : Key) (l : List Entry) : Prop := ∃ e ∈ l, setsBackoff e.1 = some k

instance : Decidable (Asked k l) := inferInstanceAs (Decidable (∃ e ∈ l, _))

/-- A pass has read the owner recorded for `k`. -/
def OwnerAsked (k : Key) (l : List Entry) : Prop := ∃ e ∈ l, readsOwner e.1 = some k

instance : Decidable (OwnerAsked k l) := inferInstanceAs (Decidable (∃ e ∈ l, _))

/-- A pass has found `k` not due yet. -/
def Skipped (now : Time) (k : Key) (l : List Entry) : Prop :=
  ∃ s e, (.read .ownerRecheck, s) ∈ l ∧ s.mem.ownerRechecks.lookup k = some e ∧ now < e.due

theorem asked_append : Asked k (l₁ ++ l₂) ↔ Asked k l₁ ∨ Asked k l₂ := by
  simp only [Asked, List.mem_append, or_and_right, exists_or]

theorem ownerAsked_append : OwnerAsked k (l₁ ++ l₂) ↔ OwnerAsked k l₁ ∨ OwnerAsked k l₂ := by
  simp only [OwnerAsked, List.mem_append, or_and_right, exists_or]

theorem Skipped.append (h : Skipped now k l₁) : Skipped now k (l₁ ++ l₂) := by
  obtain ⟨s, e, hs, he⟩ := h
  exact ⟨s, e, List.mem_append_left _ hs, he⟩

/-- The delay after a query that preserved: the base first, then twice the last one. -/
def nextDelay (base : ℕ) : Option OwnerRecheck → ℕ
  | some r => min (2 * r.delay) ownerRecheckMaxDelay
  | none => base

/-- The backoff after such a query at `now`. -/
def nextRecheck (now : Time) (base : ℕ) (r : Option OwnerRecheck) : OwnerRecheck :=
  ⟨now + nextDelay base r, nextDelay base r⟩

/-- **The pass has just been told that the owner `ref` of `k` is gone**: its last entry is the read
that says so. -/
def Condemned (P : Platform) (l : List Entry) (k : Key) (ref : OwnerReference) : Prop :=
  ∃ pre gvr read s, l = pre ++
    [(.asked .ownerRecheck (.getOwner k gvr (namespaceOf k) ref.name) read, s)]
    ∧ ownerGVR P ref.apiVersion ref.kind = some gvr ∧ (judgeOwner ref read).1 = .release

/-- The kind of the recorded owner can be read. -/
def Readable (cfg : Config) (c : Claim) : Prop :=
  cfg.dynamic ∧ ∃ ref, c.owner = some ref ∧ (ownerGVR cfg.platform ref.apiVersion ref.kind).isSome

/-- What stands between the look at a backoff and its new value, which is `next` if the verdict is
to preserve. -/
inductive Inquiry (cfg : Config) (k : Key) (c : Claim) (next : OwnerRecheck) :
    List Entry → Option OwnerRecheck → Prop where
  | unreadable : ¬ Readable cfg c → Inquiry cfg k c next [] (some next)
  | preserved {e} : readsOwner e.1 = some k → Inquiry cfg k c next [e] (some next)
  | released {e s} : readsOwner e.1 = some k →
      Inquiry cfg k c next [e, (.locked .ownerRecheck (.withdrawForRelease k c), s)] none

/-- **What each entry of a pass comes after.** -/
def RecheckText (cfg : Config) : Op → List Entry → Ev → State → Prop
  | .recheckOwners now base, l, ev, _ =>
    match ev with
    | .locked _ (.pruneRechecks keep) => ∃ s₀, l = [(.read .ownerRecheck, s₀)] ∧
        keep = s₀.mem.preserved.keys
    | .locked _ (.withdrawForRelease k c) => (passRows l).lookup k = some c ∧ ¬ Asked k l ∧
        ∃ ref, c.owner = some ref ∧ Condemned cfg.platform l k ref
    | .locked _ (.setRecheck k r) => ¬ Asked k l ∧ ∃ pre sr mid c,
        l = pre ++ (.read .ownerRecheck, sr) :: mid ∧ (passRows pre).lookup k = some c ∧
        (∀ e, sr.mem.ownerRechecks.lookup k = some e → e.due ≤ now) ∧
        Inquiry cfg k c (nextRecheck now base (sr.mem.ownerRechecks.lookup k)) mid r
    | _ => True
  | _, _, _, _ => False

/-- `destroyAuthorized` reads the owner once, or preserves without a read. -/
theorem text_destroyAuthorized {t : Tid} {G : List Entry → Ev → State → Prop} {ns : String}
    {ref : OwnerReference}
    (hG : ∀ gvr read s, G l (.asked t (.getOwner k gvr ns ref.name) read) s) :
    Text cfg t G (fun l' v => (l' = l ∧ v.1 = .preserve ∧
        ¬ (cfg.dynamic ∧ (ownerGVR cfg.platform ref.apiVersion ref.kind).isSome)) ∨
      ∃ gvr read s, ownerGVR cfg.platform ref.apiVersion ref.kind = some gvr ∧
        v = judgeOwner ref read ∧
        l' = l ++ [(.asked t (.getOwner k gvr ns ref.name) read, s)])
      (destroyAuthorized cfg k ns (some ref)) l := by
  simp only [destroyAuthorized]
  split
  · next hdyn => exact .inl ⟨rfl, rfl, fun h => by simp [h.1] at hdyn⟩
  · split
    · next hgvr => exact .inl ⟨rfl, rfl, fun h => by simp [hgvr] at h⟩
    · next gvr hgvr =>
      exact Text.request fun read s _ _ => ⟨hG gvr read s, .inr ⟨gvr, read, s, hgvr, rfl, rfl⟩⟩

/-- What one iteration adds: it asks about its key or finds it not due, and asks about no other. -/
structure Visited (now : Time) (k : Key) (l l' : List Entry) : Prop where
  grows : ∃ added, l' = l ++ added
  done : Asked k l' ∨ Skipped now k l'
  asked : ∀ {k'}, Asked k' l' → k' = k ∨ Asked k' l
  owner : ∀ {k'}, OwnerAsked k' l' → OwnerAsked k' l ∨ Asked k' l'

theorem Inquiry.ownerAsked {mid : List Entry} {r : Option OwnerRecheck} {r' : OwnerRecheck}
    (h : Inquiry cfg k c r' mid r) (hk : OwnerAsked k' mid) : k' = k := by
  obtain ⟨e, he, hk⟩ := hk
  cases h with
  | unreadable => cases he
  | preserved hr =>
    obtain rfl := List.mem_singleton.mp he
    exact Option.some.inj (hk.symm.trans hr)
  | released hr =>
    rcases List.mem_cons.mp he with rfl | he
    · exact Option.some.inj (hk.symm.trans hr)
    · obtain rfl := List.mem_singleton.mp he
      cases hk

theorem Inquiry.not_asked {mid : List Entry} {r : Option OwnerRecheck} {r' : OwnerRecheck}
    (h : Inquiry cfg k c r' mid r) : ¬ Asked k' mid := by
  have hread : ∀ {e : Entry}, readsOwner e.1 = some k → setsBackoff e.1 ≠ some k' := by
    rintro ⟨ev, s⟩ hr hs
    cases ev with
    | asked u e r => cases hs
    | _ => cases hr
  rintro ⟨e, he, hk⟩
  cases h with
  | unreadable => cases he
  | preserved hr =>
    obtain rfl := List.mem_singleton.mp he
    exact hread hr hk
  | released hr =>
    rcases List.mem_cons.mp he with rfl | he
    · exact hread hr hk
    · obtain rfl := List.mem_singleton.mp he
      cases hk

/-- The end of an iteration that has asked. -/
theorem Visited.of_inquiry {mid : List Entry} {sr s : State} {r : Option OwnerRecheck}
    {r' : OwnerRecheck} (h : Inquiry cfg k c r' mid r) :
    Visited now k l (l ++ (.read .ownerRecheck, sr) :: mid ++
      [(.locked .ownerRecheck (.setRecheck k r), s)]) where
  grows := ⟨(.read .ownerRecheck, sr) :: mid ++ [(.locked .ownerRecheck (.setRecheck k r), s)],
    by simp⟩
  done := .inl ⟨_, List.mem_append_right _ (List.mem_singleton_self _), rfl⟩
  asked := fun {k'} hk => by
    obtain hk | ⟨e, he, hk⟩ := asked_append.mp hk
    · obtain hk | ⟨e, he, hk⟩ := asked_append.mp hk
      · exact .inr hk
      · rcases List.mem_cons.mp he with rfl | he
        · cases hk
        · exact absurd ⟨e, he, hk⟩ h.not_asked
    · obtain rfl := List.mem_singleton.mp he
      exact .inl (Option.some.inj hk).symm
  owner := fun {k'} hk => by
    obtain hk | ⟨e, he, hk⟩ := ownerAsked_append.mp hk
    · obtain hk | ⟨e, he, hk⟩ := ownerAsked_append.mp hk
      · exact .inl hk
      · rcases List.mem_cons.mp he with rfl | he
        · cases hk
        · obtain rfl := h.ownerAsked ⟨e, he, hk⟩
          exact .inr ⟨_, List.mem_append_right _ (List.mem_singleton_self _), rfl⟩
    · obtain rfl := List.mem_singleton.mp he
      cases hk

theorem text_recheckOwner (hrow : (passRows l).lookup k = some c) (hnew : ¬ Asked k l) :
    Text cfg .ownerRecheck (RecheckText cfg (.recheckOwners now base))
      (fun l' _ => Visited now k l l') (recheckOwner cfg now base k c) l := by
  have hl : l ≠ [] := ne_nil_of_passRows hrow
  obtain ⟨ref, howner⟩ : ∃ ref, c.owner = some ref := by
    obtain ⟨e, rest, rfl⟩ := List.exists_cons_of_ne_nil hl
    exact Option.isSome_iff_exists.mp (Memory.lookup_preserved.mp hrow).2.1
  unfold recheckOwner
  refine Text.look fun sr => ⟨trivial, ?_⟩
  split
  · next hdue =>
    obtain ⟨e, he, hlt⟩ := (Option.any_eq_true _ _).mp hdue
    exact {
      grows := ⟨_, rfl⟩
      done := .inr ⟨sr, e, by simp, he, of_decide_eq_true hlt⟩
      asked := fun hk => (asked_append.mp hk).elim .inr fun ⟨e, he, hk⟩ => by
        obtain rfl := List.mem_singleton.mp he
        cases hk
      owner := fun hk => (ownerAsked_append.mp hk).elim .inl fun ⟨e, he, hk⟩ => by
        obtain rfl := List.mem_singleton.mp he
        cases hk }
  next hdue =>
  have hdue' : ∀ e, sr.mem.ownerRechecks.lookup k = some e → e.due ≤ now := fun e he => by
    simp only [he, Option.any_some, decide_eq_true_eq, not_lt] at hdue
    exact hdue
  -- the last section, whatever the inquiry was
  have hset : ∀ {mid r s},
      Inquiry cfg k c (nextRecheck now base (sr.mem.ownerRechecks.lookup k)) mid r →
      RecheckText cfg (.recheckOwners now base) (l ++ (.read .ownerRecheck, sr) :: mid)
        (.locked .ownerRecheck (.setRecheck k r)) s := by
    intro mid r s hq
    refine ⟨fun hk => ?_, l, sr, mid, c, rfl, hrow, hdue', hq⟩
    obtain hk | ⟨e, he, hk⟩ := asked_append.mp hk
    · exact hnew hk
    · rcases List.mem_cons.mp he with rfl | he
      · cases hk
      · exact hq.not_asked ⟨e, he, hk⟩
  rw [howner]
  refine Machine.Follows.call (text_destroyAuthorized fun _ _ _ => trivial) ?_
  rintro l' ⟨v, why⟩ (⟨rfl, rfl, hun⟩ | ⟨gvr, read, s₁, hgvr, hv, rfl⟩)
  · have hq : Inquiry cfg k c (nextRecheck now base (sr.mem.ownerRechecks.lookup k)) [] _ :=
      .unreadable fun ⟨hdyn, ref', hr, hg⟩ => by
      rw [howner] at hr
      cases hr
      exact hun ⟨hdyn, hg⟩
    refine Text.enter fun s₂ => ⟨hset hq, ?_⟩
    exact Visited.of_inquiry hq
  · cases v with
    | preserve =>
      simp only [List.append_assoc, List.singleton_append]
      have hq : Inquiry cfg k c (nextRecheck now base (sr.mem.ownerRechecks.lookup k))
        [(.asked .ownerRecheck (.getOwner k gvr (namespaceOf k) ref.name) read, s₁)] _ :=
        .preserved rfl
      refine Text.enter fun s₂ => ⟨hset hq, ?_⟩
      exact Visited.of_inquiry hq
    | release =>
      refine Text.enter fun s₂ =>
        ⟨⟨?_, ?_, ref, howner, _, gvr, read, s₁, rfl, hgvr, by rw [← hv]⟩, ?_⟩
      · rw [List.append_assoc, passRows_append hl]
        exact hrow
      · rw [asked_append, asked_append]
        rintro ((hk | ⟨e, he, hk⟩) | ⟨e, he, hk⟩)
        · exact hnew hk
        · obtain rfl := List.mem_singleton.mp he
          cases hk
        · obtain rfl := List.mem_singleton.mp he
          cases hk
      · simp only [List.append_assoc, List.singleton_append]
        have hq : Inquiry cfg k c (nextRecheck now base (sr.mem.ownerRechecks.lookup k))
          [(.asked .ownerRecheck (.getOwner k gvr (namespaceOf k) ref.name) read, s₁),
            (.locked .ownerRecheck (.withdrawForRelease k c), s₂)] none := .released rfl
        refine Text.enter fun s₃ => ⟨hset hq, ?_⟩
        exact Visited.of_inquiry hq

/-- What a pass has done about the keys of a loop. -/
structure Passed (now : Time) (rows : Table Key Claim) (keys : List Key) (l l' : List Entry) :
    Prop where
  grows : ∃ added, l' = l ++ added
  done : ∀ {k c}, k ∈ keys → rows.lookup k = some c → Asked k l' ∨ Skipped now k l'
  owner : ∀ {k}, OwnerAsked k l' → OwnerAsked k l ∨ Asked k l'

theorem text_recheckLoop {rows : Table Key Claim} {keys : List Key} (hl : l ≠ [])
    (hrows : passRows l = rows) (hkeys : keys.Nodup) (hnew : ∀ k ∈ keys, ¬ Asked k l)
    (changed : Bool) :
    Text cfg .ownerRecheck (RecheckText cfg (.recheckOwners now base))
      (fun l' _ => Passed now rows keys l l') (recheckLoop cfg now base rows keys changed) l := by
  induction keys generalizing l changed with
  | nil => exact ⟨⟨[], by simp⟩, fun hk _ => (List.not_mem_nil hk).elim, .inl⟩
  | cons key rest ih =>
    obtain ⟨hkey, hrest⟩ := List.nodup_cons.mp hkeys
    unfold recheckLoop
    split
    · next hnone =>
      refine (ih hl hrows hrest (fun k hk => hnew k (List.mem_cons_of_mem _ hk)) changed).mono
        fun l' _ h => ⟨h.grows, fun {k c} hk hc => ?_, h.owner⟩
      rcases List.mem_cons.mp hk with rfl | hk
      · rw [hnone] at hc
        cases hc
      · exact h.done hk hc
    · next c hc =>
      refine Machine.Follows.call (text_recheckOwner (by rw [hrows]; exact hc)
        (hnew key List.mem_cons_self)) ?_
      rintro l₁ moved hvis
      obtain ⟨added, rfl⟩ := hvis.grows
      have hnew' : ∀ k ∈ rest, ¬ Asked k (l ++ added) := fun k hk hask => by
        obtain rfl | hask := hvis.asked hask
        · exact hkey hk
        · exact hnew k (List.mem_cons_of_mem _ hk) hask
      refine (ih (by simp [hl]) (by rw [passRows_append hl]; exact hrows) hrest hnew'
        (changed || moved)).mono fun l' _ h => ?_
      obtain ⟨added', rfl⟩ := h.grows
      refine ⟨⟨added ++ added', by simp⟩, fun {k c} hk hc => ?_, fun {k} hk => ?_⟩
      · rcases List.mem_cons.mp hk with rfl | hk
        · exact hvis.done.imp (fun h => asked_append.mpr (.inl h)) fun h => h.append
        · exact h.done hk hc
      · obtain hk | hk := h.owner hk
        · exact (hvis.owner hk).imp_right fun h => asked_append.mpr (.inl h)
        · exact .inr hk

/-! The rest of a pass takes releases off the queue and saves. -/

/-- An event of a pass that is not part of an inquiry. -/
def Closing : Ev → Prop
  | .locked _ (.dequeue _) => True
  | .locked _ _ | .asked _ (.getOwner _ _ _ _) _ => False
  | _ => True

theorem Closing.text (h : Closing ev) (l : List Entry) (s : State) :
    RecheckText cfg (.recheckOwners now base) l ev s := by
  cases ev with
  | locked t a =>
    cases a with
    | pruneRechecks | withdrawForRelease | setRecheck => exact h.elim
    | _ => trivial
  | _ => trivial

theorem Closing.not_asked (h : Closing ev) : setsBackoff ev = none ∧ readsOwner ev = none := by
  cases ev with
  | locked t a =>
    cases a with
    | setRecheck => exact h.elim
    | _ => exact ⟨rfl, rfl⟩
  | asked t e r =>
    cases e with
    | getOwner => exact h.elim
    | _ => exact ⟨rfl, rfl⟩
  | _ => exact ⟨rfl, rfl⟩

theorem closing_drainLoop (queued : List Claim) (released : Bool) (l : List Entry) :
    Text cfg .ownerRecheck (fun _ ev _ => Closing ev) (fun _ _ => True)
      (drainLoop queued released) l := by
  induction queued generalizing released l with
  | nil => trivial
  | cons c rest ih =>
    unfold drainLoop release
    refine Text.request fun _ _ _ _ => ⟨trivial, Text.request fun r _ _ _ => ⟨trivial, ?_⟩⟩
    cases r with
    | error err => exact ih released _
    | ok u => exact Text.enter fun _ => ⟨trivial, ih true _⟩

theorem Closing.of_saves (h : Saves ev) : Closing ev := by
  cases ev with
  | read t => trivial
  | asked t e r =>
    cases e with
    | getOwner => exact h.elim
    | _ => trivial
  | _ => exact h.elim

/-- What a pass has done when it returns. -/
structure PassDone (now : Time) (l : List Entry) : Prop where
  began : ∃ s₀ rest, l = (.read .ownerRecheck, s₀) :: rest
  done : ∀ {k c}, (passRows l).lookup k = some c → Asked k l ∨ Skipped now k l
  owner : ∀ {k}, OwnerAsked k l → Asked k l

theorem PassDone.adds (h : PassDone now l) (ha : Adds Closing l l') : PassDone now l' := by
  obtain ⟨added, rfl, hall⟩ := ha
  obtain ⟨s₀, rest, hl⟩ := h.began
  have hne : l ≠ [] := by rw [hl]; simp
  refine ⟨⟨s₀, rest ++ added, by rw [hl]; simp⟩, fun {k c} hc => ?_, fun {k} hk => ?_⟩
  · rw [passRows_append hne] at hc
    exact (h.done hc).imp (fun h => asked_append.mpr (.inl h)) fun h => h.append
  · obtain hk | ⟨e, he, hk⟩ := ownerAsked_append.mp hk
    · exact asked_append.mpr (.inl (h.owner hk))
    · rw [(hall e he).not_asked.2] at hk
      cases hk

theorem text_recheckOwners : Text cfg .ownerRecheck (RecheckText cfg (.recheckOwners now base))
    (fun l _ => PassDone now l) (recheckOwners cfg now base) [] := by
  unfold recheckOwners
  refine Text.look fun s₀ => ⟨trivial, ?_⟩
  refine Text.enter fun s₁ => ⟨⟨s₀, rfl, rfl⟩, ?_⟩
  refine Text.request fun order s₂ s₂' hord => ⟨trivial, ?_⟩
  have hnodup : order.Nodup := by
    simp only [answer] at hord
    split at hord
    · next h => exact h.1
    · cases hord
  have hrows : passRows ([] ++ [(.read .ownerRecheck, s₀)] ++
      [(.locked .ownerRecheck (.pruneRechecks s₀.mem.preserved.keys), s₁)] ++
      [(.asked .ownerRecheck (.rangeOver s₀.mem.preserved.keys) order, s₂)])
      = s₀.mem.preserved := rfl
  refine Machine.Follows.call (text_recheckLoop (by simp) hrows hnodup ?_ false) ?_
  · rintro k - ⟨e, he, hk⟩
    simp only [List.nil_append, List.cons_append, List.mem_cons, List.not_mem_nil, or_false] at he
    obtain rfl | rfl | rfl := he <;> cases hk
  rintro l' changed hpass
  have hdone : PassDone now l' := by
    obtain ⟨added, rfl⟩ := hpass.grows
    refine ⟨⟨s₀, _, rfl⟩, fun {k c} hc => hpass.done (mem_of_rangeOver hord hc) hc,
      fun {k} hk => ?_⟩
    obtain ⟨e, he, hk⟩ | hk := hpass.owner hk
    · simp only [List.nil_append, List.cons_append, List.mem_cons, List.not_mem_nil, or_false] at he
      obtain rfl | rfl | rfl := he <;> cases hk
    · exact hk
  unfold drainReleases
  refine Machine.Follows.call (P := fun l _ => PassDone now l) ?_ fun l₁ drained h₁ => ?_
  · refine Text.look fun s₃ => ⟨trivial, ?_⟩
    refine (Machine.Follows.plain (closing_drainLoop _ _ _) fun l ev s h => h.text l s).mono
      fun l' _ h' => hdone.adds (h'.cons trivial)
  · split
    · exact (Machine.Follows.plain (saves_saveState _) fun l ev s h =>
        (Closing.of_saves h).text l s).mono
        fun l' _ h' => h₁.adds (h'.mono Closing.of_saves)
    · exact h₁

theorem follows_ownerRecheck (cfg : Config) : Follows cfg .ownerRecheck (RecheckText cfg)
    (fun op l _ => ∀ now base, op = .recheckOwners now base → PassDone now l) := by
  intro op s s' h
  obtain ⟨he, -⟩ | hm := mayCall_of_started h
  · cases he
  · cases op with
    | recheckOwners now base =>
      refine Machine.Follows.call text_recheckOwners fun l _ h => ?_
      rintro now' base' he
      cases he
      exact h
    | _ => simp [mayCall] at hm

/-! ## A row without a Pod

Once its Pod is gone a row only changes its deadline, until a Pod adopts it, a `DeletePod` preserves
it again, or it is removed. -/

/-- The event preserves the claim of `k`. -/
def preservesAt (k : Key) : Ev → Bool
  | .locked _ (.preserveClaim key _ _) => key = k
  | _ => false

theorem preservesAt_eq_true (h : preservesAt k ev) :
    ∃ t id owner, ev = .locked t (.preserveClaim k id owner) := by
  cases ev with
  | locked t a =>
    cases a with
    | preserveClaim key id owner =>
      obtain rfl : key = k := of_decide_eq_true h
      exact ⟨t, id, owner, rfl⟩
    | _ => cases h
  | _ => cases h

/-- A condition on the events that preserve a claim. -/
def WhenPreserving (P : Key → String → Option OwnerReference → Prop) : Ev → Prop
  | .locked _ (.preserveClaim key id owner) => P key id owner
  | _ => True

instance {P : Key → String → Option OwnerReference → Prop} [∀ k id owner, Decidable (P k id owner)]
    (ev : Ev) : Decidable (WhenPreserving P ev) := by
  unfold WhenPreserving
  split <;> infer_instance

/-- **A pod-less row was there before**, pod-less too, unless it has just been preserved. -/
theorem Guard.podless_back {s' : State} {c' : Claim} (hg : Guard cfg ev s)
    (ha : apply ev s = some s') (hup : s.phase = .up) (hno : preservesAt k ev = false)
    (hc : s'.row k = some c') (hp : s'.mem.pods.lookup k = none) :
    ∃ c d, s.row k = some c ∧ s.mem.pods.lookup k = none ∧
      c' = { c with deadline := d } ∧ (s.mem.settled k → s'.mem.settled k) := by
  obtain ⟨hm, -⟩ | ⟨t, a, rfl, hm, -⟩ | ⟨-, hm, -⟩ := (effect ha).tables
  · rw [State.row, hm] at hc
    rw [hm] at hp ⊢
    exact ⟨c', c'.deadline, hc, hp, rfl, id⟩
  · rw [State.row, hm] at hc
    rw [hm] at hp ⊢
    obtain ⟨hlive, hg⟩ := hg
    have hboot : t ≠ .boot := by
      rintro rfl
      exact absurd (hup.symm.trans hlive) (by decide)
    obtain ⟨c, hc₀, hedit⟩ | hcr := Section.row_edit hc
    · -- the Pod was gone already
      have hp₀ : s.mem.pods.lookup k = none := by
        by_contra hsome
        obtain ⟨p, hsome⟩ := Option.ne_none_iff_exists'.mp hsome
        obtain ⟨p', hp'⟩ | ⟨id, rfl⟩ | rfl | ⟨id, owner, rfl⟩ := Section.pods_gone (a := a) hsome
        · rw [hp] at hp'
          cases hp'
        · exact (Memory.row_withdrawClaim.mp hc).2 rfl
            (hg.2.2.1 c' (Memory.row_withdrawClaim.mp hc).1)
        · cases hc₀.symm.trans hg.2
        · simp [preservesAt] at hno
      have hset : s.mem.settled k → (a.run s.mem).settled k := by
        simp only [Memory.settled_eq_true]
        rintro ⟨ht, hq⟩
        refine ⟨fun h => ?_, fun h => ?_⟩
        · obtain h | ⟨pod, c₁, rfl⟩ := Section.tentative_back h
          · exact ht h
          · cases hc₀.symm.trans hg.2.2.2.1
        · obtain ⟨rfl, -⟩ | ⟨h, -⟩ := Section.quarantined_back h
          · exact hboot hg.1
          · exact hq h
      cases hedit with
      | deadline d => exact ⟨c, d, hc₀, hp₀, rfl, hset⟩
      | @rebind pod ha hs had =>
        subst ha
        have hadopt : s.mem.adopted k pod = some (c.rebind pod) := by
          simp [Memory.adopted, hc₀, hs, had]
        obtain ⟨_, -, -, -, he, -⟩ := Memory.adopted_eq_some hadopt
        rw [Section.run, he] at hp
        simp at hp
      | preserve ha =>
        subst ha
        simp [preservesAt] at hno
    · cases a with
      | load st now => exact absurd hg.1 hboot
      | insertClaim key pod c₀ =>
        obtain ⟨rfl, rfl⟩ := hcr
        simp [Section.run, Memory.insertClaim] at hp
      | _ => exact hcr.elim
  · rw [State.row, hm] at hc
    simp at hc

section Results

variable {file : File} {tr : List Ev}
  {x x' : Interleave.Config State Memory Section Request Reply Tid Op Outcome}

/-! ## What a pass releases -/

/-- The claim `id` at `k`, while it has no Pod, is kept for the owner `uid`. -/
def KeptFor (s : State) (k : Key) (id uid : String) : Prop :=
  ∀ cur, s.row k = some cur → cur.id = id → s.mem.pods.lookup k = none →
    cur.owner.map (·.uid) = some uid

theorem KeptFor.step {s' : State} {id uid : String} (h : KeptFor s k id uid) (hg : Guard cfg ev s)
    (ha : apply ev s = some s') (hup : s.phase = .up)
    (hsame : ∀ t owner, ev = .locked t (.preserveClaim k id owner) → owner.map (·.uid) = some uid) :
    KeptFor s' k id uid := by
  intro cur hcur hid hp
  cases hpres : preservesAt k ev with
  | false =>
    obtain ⟨c, d, hc, hp₀, rfl, -⟩ := hg.podless_back ha hup hpres hcur hp
    exact h c hc hid hp₀
  | true =>
    obtain ⟨t, id', owner, rfl⟩ := preservesAt_eq_true hpres
    obtain ⟨-, -, -, -, -, -, -, -, hrow, -⟩ := hg
    cases ha
    obtain ⟨c, hc, rfl⟩ := Memory.row_preserveClaim.mp hcur
    obtain rfl : c.id = id' := hrow c hc
    simp only [true_and, if_true] at hid ⊢
    exact hsame t owner (by rw [hid])

/-- **No claim changes its recorded owner under a pass**: whenever a `DeletePod` preserves a claim
that a pass in progress has still to ask about, it does so for the owner the pass knows. -/
def SameOwner (cfg : Config) (file : File) (tr : List Ev) (_ : State) : Ev → Prop :=
  WhenPreserving fun k id owner =>
    let l := journal cfg file .ownerRecheck tr
    ∀ c ∈ (passRows l).lookup k, ¬ Asked k l → c.id = id → ∀ ref ∈ c.owner,
      owner.map (·.uid) = some ref.uid

instance (cfg : Config) (file : File) (tr : List Ev) (s : State) (ev : Ev) :
    Decidable (SameOwner cfg file tr s ev) :=
  inferInstanceAs (Decidable (WhenPreserving _ ev))

/-- **What a pass has still to ask about is kept for the owner it knows.** -/
theorem Runs.keptFor (h : Runs cfg file tr x) (hC : Throughout cfg file (SameOwner cfg file) tr)
    {ref : OwnerReference} (hrow : (passRows (journal cfg file .ownerRecheck tr)).lookup k = some c)
    (hnew : ¬ Asked k (journal cfg file .ownerRecheck tr)) (howner : c.owner = some ref) :
    KeptFor x.shared k c.id ref.uid := by
  refine h.induct_journal (t := .ownerRecheck) nofun hC
    (J := fun l s => (passRows l).lookup k = some c → ¬ Asked k l →
    KeptFor s k c.id ref.uid) (fun s hrow => by cases hrow) ?_ ?_ hrow hnew
  · intro tr x ev x' h hs _ hup htid ih hrow hnew
    obtain ⟨hg, ha⟩ := h.next hs
    refine KeptFor.step ?_ hg ha hup fun t owner hev => ?_
    · by_cases hnil : journal cfg file .ownerRecheck tr = []
      · -- the look itself: the row is the one it finds
        rw [hnil] at hrow
        intro cur hcur _ _
        obtain rfl : cur = c :=
          Option.some.inj (hcur.symm.trans (Memory.lookup_preserved.mp hrow).1)
        rw [howner]
        rfl
      · rw [passRows_append hnil] at hrow
        exact ih hrow fun hk => hnew (asked_append.mpr (.inl hk))
    · subst hev
      cases htid
      cases hg.2.1
  · intro tr x ev x' h hs hc hup _ _ ih hrow hnew
    obtain ⟨hg, ha⟩ := h.next hs
    refine (ih hrow hnew).step hg ha hup fun t owner hev => ?_
    subst hev
    exact hc c hrow hnew rfl ref howner

/-- What a pass knows when it withdraws a claim. -/
theorem Runs.condemned (h : Runs cfg file tr x)
    (hstep : Step (machine cfg) x (.locked .ownerRecheck (.withdrawForRelease k c)) x') :
    let l := journal cfg file .ownerRecheck tr
    (passRows l).lookup k = some c ∧ ¬ Asked k l ∧ ∃ ref, c.owner = some ref ∧
      Condemned cfg.platform l k ref := by
  obtain ⟨op, -, htext⟩ := h.locked (follows_ownerRecheck cfg) hstep
  cases op with
  | recheckOwners now base => exact htext
  | _ => exact htext.elim

/-- **A re-check releases only what its verdict was about.** -/
theorem recheck_releases_its_owners_claim (h : Runs cfg file tr x)
    (hC : Throughout cfg file (SameOwner cfg file) tr) {t : Tid}
    (hstep : Step (machine cfg) x (.locked t (.withdrawForRelease k c)) x')
    (hmoves : x.shared.mem.withdrawable k c) : ∃ cur ref, x.shared.row k = some cur ∧
      c.owner = some ref ∧ Condemned cfg.platform (journal cfg file .ownerRecheck tr) k ref ∧
      cur.owner.map (·.uid) = some ref.uid := by
  obtain ⟨-, rfl, -⟩ := (h.next hstep).1
  obtain ⟨hrow, hnew, ref, howner, hcond⟩ := h.condemned hstep
  obtain ⟨cur, hcur, hid, hp⟩ := Memory.withdrawable_iff.mp hmoves
  exact ⟨cur, ref, hcur, howner, hcond, h.keptFor hC hrow hnew howner cur hcur hid hp⟩

/-- The claim an event withdraws for release. -/
def withdrawnClaim : Ev → Option (Key × Claim)
  | .locked .ownerRecheck (.withdrawForRelease k c) => some (k, c)
  | _ => none

theorem withdrawnClaim_eq_some (h : withdrawnClaim ev = some (k, c)) :
    ev = .locked .ownerRecheck (.withdrawForRelease k c) := by
  unfold withdrawnClaim at h
  split at h
  · cases h; rfl
  · cases h

/-- The owner the API server reports gone. -/
def ownerGone : OwnerRead := .notFound (some "rs")

/-- A claim is preserved for its ReplicaSet, and a pass finds the ReplicaSet gone. -/
def ownerRemoved : Schedule :=
  call .boot .new 10 {} ++
  call (.lifecycle "ns/p") (.createPod (samplePod "p" "uid-1" [sampleOwner "rs-1"])) 17
    { claimed := .ok (sampleResult "s1") } ++
  call (.lifecycle "ns/p") (.deletePod (samplePod "p" "uid-1" [sampleOwner "rs-1"])) 11 {} ++
  call .ownerRecheck (.recheckOwners (9 * second) (10 * second)) 5
    { order := ["ns/p"], owner := ownerGone }

/-- A run in which a re-check releases the claim of the owner it asked about. -/
theorem recheck_releases_its_owners_claim_of_gone_owner : ∃ tr x x' c,
    Runs fullConfig .absent tr x ∧
    Throughout fullConfig .absent (SameOwner fullConfig .absent) tr ∧
    Step (machine fullConfig) x (.locked .ownerRecheck (.withdrawForRelease "ns/p" c)) x' ∧
    x.shared.mem.withdrawable "ns/p" c ∧ ∃ cur ref, x.shared.row "ns/p" = some cur ∧
      c.owner = some ref ∧
      Condemned fullConfig.platform (journal fullConfig .absent .ownerRecheck tr) "ns/p" ref ∧
      cur.owner.map (·.uid) = some ref.uid := by
  obtain ⟨tr, x, ev, x', h, hstep, hcheck, hev⟩ := exists_step fullConfig .absent ownerRemoved
    (.move .ownerRecheck (World.reply {}))
    (fun tr s ev => checkThroughout fullConfig .absent (SameOwner fullConfig .absent) tr
        = true ∧
      (withdrawnClaim ev).any (fun e => e.1 = "ns/p" ∧ s.mem.withdrawable "ns/p" e.2 = true) = true)
    (by decide +kernel)
  obtain ⟨⟨k, c⟩, hw, hk⟩ := (Option.any_eq_true _ _).mp hev
  obtain ⟨rfl, hmoves⟩ := of_decide_eq_true hk
  obtain rfl := withdrawnClaim_eq_some hw
  have hC : Throughout fullConfig .absent (SameOwner fullConfig .absent) tr :=
    .of_check hcheck
  exact ⟨tr, x, x', c, h, hC, hstep, hmoves, recheck_releases_its_owners_claim h hC hstep hmoves⟩

/-- While a pass is about to ask, the claim is adopted and preserved again, for another
ReplicaSet. -/
def preservedAgain : Schedule :=
  call .boot .new 10 {} ++
  call (.lifecycle "ns/p") (.createPod (samplePod "p" "uid-1" [sampleOwner "rs-1"])) 17
    { claimed := .ok (sampleResult "s1") } ++
  call (.lifecycle "ns/p") (.deletePod (samplePod "p" "uid-1" [sampleOwner "rs-1"])) 11 {} ++
  call .ownerRecheck (.recheckOwners (9 * second) (10 * second)) 4 { order := ["ns/p"] } ++
  call (.lifecycle "ns/p") (.createPod (samplePod "p" "uid-2" [sampleOwner "rs-1"])) 12 {} ++
  call (.lifecycle "ns/p") (.deletePod (samplePod "p" "uid-2" [sampleOwner "rs-2"])) 11 {} ++
  steps .ownerRecheck 1 { owner := ownerGone }

/-- **A verdict on one owner releases the claim kept for another.** -/
theorem recheck_releases_another_owners_claim : ∃ tr x x' c cur ref other,
    Runs fullConfig .absent tr x ∧
    Step (machine fullConfig) x (.locked .ownerRecheck (.withdrawForRelease "ns/p" c)) x' ∧
    x.shared.mem.withdrawable "ns/p" c ∧ x.shared.row "ns/p" = some cur ∧ c.owner = some ref ∧
    Condemned fullConfig.platform (journal fullConfig .absent .ownerRecheck tr) "ns/p" ref ∧
    cur.owner = some other ∧ other.uid ≠ ref.uid := by
  obtain ⟨tr, x, ev, x', h, hstep, hev⟩ := exists_step fullConfig .absent preservedAgain
    (.move .ownerRecheck (World.reply {}))
    (fun tr s ev => (withdrawnClaim ev).any (fun e => e.1 = "ns/p" ∧
        s.mem.withdrawable "ns/p" e.2 = true ∧ e.2.owner = some (sampleOwner "rs-1") ∧
        (s.row "ns/p").any (·.owner = some (sampleOwner "rs-2")) = true) = true)
    (by decide +kernel)
  obtain ⟨⟨k, c⟩, hw, hk⟩ := (Option.any_eq_true _ _).mp hev
  obtain ⟨rfl, hmoves, howner, hcur⟩ := of_decide_eq_true hk
  obtain ⟨cur, hcur, hother⟩ := (Option.any_eq_true _ _).mp hcur
  obtain rfl := withdrawnClaim_eq_some hw
  obtain ⟨-, -, ref, href, hcond⟩ := h.condemned hstep
  obtain rfl : sampleOwner "rs-1" = ref := Option.some.inj (howner.symm.trans href)
  exact ⟨tr, x, x', c, cur, sampleOwner "rs-1", sampleOwner "rs-2", h, hstep, hmoves, hcur, href,
    hcond,
    of_decide_eq_true hother, by decide⟩

end Results

end VkSandbox

import VkSandbox.Machinery.Solo
import VkSandbox.Inventory.LiveSource

/-!
# Inventory/Publisher — publishing a node's inventory

One `Publish` reads four things, one after the other, and applies only what it has read itself:

    Get Node ──▸ LiveSandboxes ──▸ NodeInfo ──▸ Apply
       │               │               │
       ├ ok            └ error         └ error          no apply
       ├ NotFound, never seen: no owner
       ├ NotFound, seen before: error                   no apply
       └ other error                                    no apply

`nodeSeen` is set at the first successful read, also if the call fails at a later step, and never
reset: an inventory without owner is applied only by a publisher that has not yet seen its Node.
-/

namespace VkSandbox

open Interleave Interleave.Prog

/-! ## What is read and applied -/

/-- The fields of a Node that the publisher reads. -/
structure NodeMeta where
  name : String
  uid : String
  deriving DecidableEq

/-- The outcome of reading the Node: `notFound` is what `apierrors.IsNotFound` tells from the
rest. -/
inductive NodeRead where
  | ok (node : NodeMeta)
  | notFound
  | failed (err : String)
  deriving DecidableEq

/-- `v1beta1.PoolCapacity`. -/
structure PoolCapacity where
  template : String
  net : String
  size : String
  warm : ℕ
  target : ℕ
  deriving DecidableEq

/-- `v1beta1.PromotedTemplate`. -/
structure PromotedTemplate where
  template : String
  net : String
  size : String
  contentDigest : String
  deriving DecidableEq

/-- `NodeInfo`: the advertise address, the warm capacity and the promoted templates. -/
structure NodeInfo where
  address : String
  pools : List PoolCapacity
  templates : List PromotedTemplate
  deriving DecidableEq

/-- `scale.NodeInventory`. -/
structure NodeInventory where
  kind : String
  apiVersion : String
  name : String
  node : String
  entries : List InventoryEntry
  ownerReferences : List OwnerReference
  publishedAt : Time
  address : String
  pools : List PoolCapacity
  templates : List PromotedTemplate
  deriving DecidableEq

/-- The errors of `Publish`, one constructor per `fmt.Errorf`; `cause` is the text of the wrapped
error. -/
inductive PublishError where
  | nodeDeleted (node : String)
  | readNode (node cause : String)
  | readLive (node cause : String)
  | readInfo (node cause : String)
  | applyInventory (node cause : String)
  deriving DecidableEq

/-- The text of an error. -/
def PublishError.text (P : Platform) : PublishError → String
  | nodeDeleted node =>
    "inventory: node " ++ P.quote node ++ " was deleted; its inventory is not republished"
  | readNode node cause => "inventory: read node " ++ P.quote node ++ ": " ++ cause
  | readLive node cause => "inventory: read node " ++ P.quote node ++ " live sandboxes: " ++ cause
  | readInfo node cause => "inventory: read node " ++ P.quote node ++ " info: " ++ cause
  | applyInventory node cause => "inventory: apply node " ++ P.quote node ++ " inventory: " ++ cause

/-! ## The publisher -/

/-- What a publisher remembers between its calls. -/
structure Publisher where
  nodeSeen : Bool := false
  deriving DecidableEq

/-- What a publisher is built with: its node, the group, version and kind of the inventory
(`scale.NodeInventoryGVK`), and what `LiveSandboxes` rests on. -/
structure PublisherConfig where
  node : String
  kind : String
  apiVersion : String
  sort : ComparisonSort String
  entry : EntryMapping

/-- The one assignment to the publisher. -/
inductive PublisherSection where
  | setNodeSeen
  deriving DecidableEq

/-- What a publisher asks of the world. -/
inductive PublisherRequest where
  | getNode (name : String)
  | sandboxes
  | claimAddresses
  | now
  | nodeInfo
  | apply (inv : NodeInventory)
  deriving DecidableEq

/-- What it is answered. -/
def PublisherReply : PublisherRequest → Type
  | .getNode _ => NodeRead
  | .sandboxes => Except String (List LiveRow)
  | .claimAddresses => Table String String
  | .now => Time
  | .nodeInfo => Except String NodeInfo
  | .apply _ => Except String Unit

/-- Code of a publisher. -/
abbrev PublisherCode := Prog Publisher PublisherSection PublisherRequest PublisherReply

/-- Ask and go on with the answer. -/
def PublisherCode.request (e : PublisherRequest) : PublisherCode (PublisherReply e) := .ask e .ret

open PublisherCode (request)

/-- The one operation. -/
inductive PublisherOp where
  | publish
  deriving DecidableEq

/-- The owner reference to a Node. -/
def ownerOf (node : NodeMeta) : OwnerReference :=
  { apiVersion := "v1", kind := "Node", name := node.name, uid := node.uid }

variable (cfg : PublisherConfig)

/-- `owners`: none before the Node registers, an error once it is deleted. -/
def owners : PublisherCode (Except PublishError (List OwnerReference)) := do
  match (← request (.getNode cfg.node) : NodeRead) with
  | .ok node =>
    enter .setNodeSeen fun _ => ()
    return .ok [ownerOf node]
  | .notFound =>
    if ← look fun p => !p.nodeSeen then
      return .ok []
    return .error (.nodeDeleted cfg.node)
  | .failed err => return .error (.readNode cfg.node err)

/-- `LiveSandboxes`: the sandboxd index, joined with the provider's addresses. -/
def liveSandboxes : PublisherCode (Except String (List InventoryEntry)) := do
  match (← request .sandboxes : Except String (List LiveRow)) with
  | .error err => return .error err
  | .ok listed =>
    let addrByID ← request .claimAddresses
    return .ok (liveEntries cfg.sort cfg.entry addrByID listed)

/-- `Publish`: apply the node's live sandboxes and capacity, and report how many entries. -/
def publish : PublisherCode (Except PublishError ℕ) :=
  (owners cfg).orReturn fun owners => do
    match ← liveSandboxes cfg with
    | .error err => return .error (.readLive cfg.node err)
    | .ok entries =>
      let publishedAt ← request .now
      match (← request .nodeInfo : Except String NodeInfo) with
      | .error err => return .error (.readInfo cfg.node err)
      | .ok ni =>
        let inv : NodeInventory :=
          { kind := cfg.kind
            apiVersion := cfg.apiVersion
            name := cfg.node
            node := cfg.node
            entries := entries
            ownerReferences := owners
            publishedAt := publishedAt
            address := ni.address
            pools := ni.pools
            templates := ni.templates }
        match (← request (.apply inv) : Except String Unit) with
        | .error err => return .error (.applyInventory cfg.node err)
        | .ok _ => return .ok entries.length

/-! ## Histories of a publisher -/

/-- What a publisher does or is told. -/
abbrev PubEv := Event PublisherSection PublisherRequest PublisherReply Unit PublisherOp
  (Except PublishError ℕ)

/-- **One publisher**: its calls come one after the other, and the world answers as it likes. -/
def publisher : Machine Publisher Publisher PublisherSection PublisherRequest PublisherReply Unit
    PublisherOp (Except PublishError ℕ) where
  mem p := p
  code | .publish => publish cfg
  apply
    | .started _ _, p | .read _, p | .asked _ _ _, p | .finished _ _ _, p => some p
    | .locked _ .setNodeSeen, p => some { p with nodeSeen := true }
    | .crashed, _ => none

/-- A history of a new publisher. -/
abbrev Publishes (tr : List PubEv) (x : Interleave.Config Publisher Publisher PublisherSection
    PublisherRequest PublisherReply Unit PublisherOp (Except PublishError ℕ)) : Prop :=
  Run (publisher cfg) ⟨{}, fun _ => none⟩ tr x

/-! ## What a call has read -/

/-- The owners a read of the Node leads to. -/
def NodeRead.owners : NodeRead → List OwnerReference
  | .ok node => [ownerOf node]
  | .notFound | .failed _ => []

/-- After a success the publisher notes that it has seen the Node; after a NotFound it looks whether
it has. -/
def NodeRead.thenDoes : NodeRead → PubEv
  | .ok _ => .locked () .setNodeSeen
  | .notFound | .failed _ => .read ()

/-- What a call has read by the time it applies. -/
structure PublishReads where
  node : NodeRead
  listed : List LiveRow
  addrByID : Table String String
  publishedAt : Time
  info : NodeInfo

namespace PublishReads

variable (reads : PublishReads)

/-- The events of the call after the Node was read. -/
def rest : List PubEv :=
  [.asked () .sandboxes (.ok reads.listed), .asked () .claimAddresses reads.addrByID,
    .asked () .now reads.publishedAt, .asked () .nodeInfo (.ok reads.info)]

/-- The events of the call, up to the apply. -/
def events : List PubEv :=
  .asked () (.getNode cfg.node) reads.node :: reads.node.thenDoes :: reads.rest

/-- The inventory that holds exactly what the call has read. -/
def inventory : NodeInventory :=
  { kind := cfg.kind
    apiVersion := cfg.apiVersion
    name := cfg.node
    node := cfg.node
    entries := liveEntries cfg.sort cfg.entry reads.addrByID reads.listed
    ownerReferences := reads.node.owners
    publishedAt := reads.publishedAt
    address := reads.info.address
    pools := reads.info.pools
    templates := reads.info.templates }

end PublishReads

/-! ## The text of `Publish` -/

/-- The events of a call so far, each with the publisher it found. -/
abbrev PubJournal := List (PubEv × Publisher)

/-- The call has read the Node and not yet noted it. -/
def Pending (l : PubJournal) : Prop :=
  ∃ node p, l = [(.asked () (.getNode cfg.node) (.ok node), p)]

/-- The journal of a call that has dealt with its Node and may go on: `p` is the publisher it saw
then. -/
structure NodeDone (node : NodeRead) (p : Publisher) (l : PubJournal) (rest : List PubEv) :
    Prop where
  accepted : ∀ err, node ≠ .failed err
  unseen : node = .notFound → p.nodeSeen = false
  journal : ∃ p₀ l', l = (.asked () (.getNode cfg.node) node, p₀) :: (node.thenDoes, p) :: l' ∧
    l'.map Prod.fst = rest

variable {cfg}

theorem NodeDone.snoc {node : NodeRead} {p p' : Publisher} {l : PubJournal} {rest : List PubEv}
    {ev : PubEv} (h : NodeDone cfg node p l rest) :
    NodeDone cfg node p (l ++ [(ev, p')]) (rest ++ [ev]) := by
  obtain ⟨hacc, hunseen, p₀, l', rfl, hrest⟩ := h
  exact ⟨hacc, hunseen, p₀, l' ++ [(ev, p')], rfl, by simp [hrest]⟩

theorem NodeDone.not_pending {node : NodeRead} {p : Publisher} {l : PubJournal} {rest : List PubEv}
    (h : NodeDone cfg node p l rest) : ¬ Pending cfg l := by
  obtain ⟨-, -, p₀, l', rfl, -⟩ := h
  rintro ⟨node', p', he⟩
  simp at he

variable (cfg)

/-- **What `Publish` may do after what**: it applies exactly what it has read, and once it has read
the Node the next thing it does is to note that. -/
def PublishText (l : PubJournal) : PubEv → Publisher → Prop
  | .locked _ _, _ => True
  | .asked _ (.getNode name) _, _ => l = [] ∧ name = cfg.node
  | .asked _ (.apply inv) _, _ => ∃ (reads : PublishReads) (p : Publisher),
      NodeDone cfg reads.node p l reads.rest ∧ inv = reads.inventory cfg
  | _, _ => ¬ Pending cfg l

theorem text_owners : (publisher cfg).Follows () (PublishText cfg)
    (fun l r => ¬ Pending cfg l ∧ ∀ owners, r = .ok owners → ∃ node p,
      NodeDone cfg node p l [] ∧ owners = node.owners) (owners cfg) [] := by
  have hfailed : ∀ {node : NodeRead} {p : Publisher}, (∀ node', node ≠ .ok node') →
      ¬ Pending cfg [(.asked () (.getNode cfg.node) node, p)] := by
    rintro node p hne ⟨node', p', he⟩
    cases he
    exact hne node' rfl
  refine Machine.Follows.bind fun node p₀ p₁ _ => ⟨⟨rfl, rfl⟩, ?_⟩
  cases node with
  | ok node =>
    refine fun p p' _ => ⟨trivial, ?_⟩
    have hdone : NodeDone cfg (.ok node) p
        [(.asked () (.getNode cfg.node) (.ok node), p₀), (.locked () .setNodeSeen, p)] [] :=
      ⟨nofun, nofun, p₀, [], rfl, rfl⟩
    exact ⟨hdone.not_pending, fun owners he => ⟨.ok node, p, hdone, (Except.ok.inj he).symm⟩⟩
  | notFound =>
    refine fun p p' _ => ⟨hfailed nofun, ?_⟩
    cases hseen : p.nodeSeen with
    | false =>
      have hdone : NodeDone cfg .notFound p
          [(.asked () (.getNode cfg.node) .notFound, p₀), (.read (), p)] [] :=
        ⟨nofun, fun _ => hseen, p₀, [], rfl, rfl⟩
      change (publisher cfg).Follows () _ _ (if (!p.nodeSeen) = true then _ else _) _
      rw [hseen]
      exact ⟨hdone.not_pending, fun owners he => ⟨.notFound, p, hdone, (Except.ok.inj he).symm⟩⟩
    | true =>
      change (publisher cfg).Follows () _ _ (if (!p.nodeSeen) = true then _ else _) _
      rw [hseen]
      refine ⟨?_, nofun⟩
      rintro ⟨node, p', he⟩
      simp at he
  | failed err => exact ⟨hfailed nofun, nofun⟩

theorem text_liveSandboxes {node : NodeRead} {p : Publisher} {l : PubJournal}
    (h : NodeDone cfg node p l []) : (publisher cfg).Follows () (PublishText cfg)
    (fun l r => ¬ Pending cfg l ∧ ∀ entries, r = .ok entries → ∃ listed addrByID,
      NodeDone cfg node p l
        [.asked () .sandboxes (.ok listed), .asked () .claimAddresses addrByID] ∧
      entries = liveEntries cfg.sort cfg.entry addrByID listed) (liveSandboxes cfg) l := by
  refine Machine.Follows.bind fun listed p₀ p₁ _ => ⟨h.not_pending, ?_⟩
  cases listed with
  | error err => exact ⟨h.snoc.not_pending, nofun⟩
  | ok listed =>
    refine fun addrByID p₂ p₃ _ =>
      ⟨h.snoc.not_pending, h.snoc.snoc.not_pending, fun entries he => ?_⟩
    exact ⟨listed, addrByID, h.snoc.snoc, (Except.ok.inj he).symm⟩

/-- **`Publish` keeps to its text.** -/
theorem text_publish : (publisher cfg).Follows () (PublishText cfg) (fun l _ => ¬ Pending cfg l)
    (publish cfg) [] := by
  refine (text_owners cfg).orReturn (fun l err h => h.1) fun l owners hl => ?_
  obtain ⟨node, p, hnode, rfl⟩ := hl.2 owners rfl
  refine Machine.Follows.call (text_liveSandboxes cfg hnode) fun l entries hl => ?_
  cases entries with
  | error err => exact hl.1
  | ok entries =>
    obtain ⟨listed, addrByID, hlive, rfl⟩ := hl.2 entries rfl
    refine fun publishedAt p₁ p₂ _ => ⟨hlive.not_pending, ?_⟩
    refine fun info p₃ p₄ _ => ⟨hlive.snoc.not_pending, ?_⟩
    cases info with
    | error err => exact hlive.snoc.snoc.not_pending
    | ok info =>
      refine fun applied p₅ p₆ _ =>
        ⟨⟨⟨node, listed, addrByID, publishedAt, info⟩, p, hlive.snoc.snoc, rfl⟩, ?_⟩
      cases applied with
      | error err => exact hlive.snoc.snoc.snoc.not_pending
      | ok _ => exact hlive.snoc.snoc.snoc.not_pending

/-! ## Histories -/

variable {cfg} {tr : List PubEv}
  {x y : Interleave.Config Publisher Publisher PublisherSection PublisherRequest PublisherReply Unit
    PublisherOp (Except PublishError ℕ)} {ev : PubEv} {p p' : Publisher}

/-- The call in progress, and what it has done. -/
def inProgress (cfg : PublisherConfig) (tr : List PubEv) : PubJournal :=
  (publisher cfg).journal () [] {} tr

theorem text_code : ∀ op p p', (publisher cfg).apply (.started () op) p = some p' →
    (publisher cfg).Follows () (PublishText cfg) (fun l _ => ¬ Pending cfg l)
      ((publisher cfg).code op) [] := by
  rintro ⟨⟩ p p' -
  exact text_publish cfg

/-- The publisher's own events are all there are. -/
theorem Publishes.tid (h : Publishes cfg tr x) : ∀ ev ∈ tr, ev.tid = some () := by
  induction h with
  | nil => exact List.forall_mem_nil _
  | @snoc tr x ev y h hs ih =>
    intro ev' hev
    rcases List.mem_append.mp hev with hev | hev
    · exact ih ev' hev
    · rw [List.mem_singleton.mp hev]
      have ha := hs.apply
      cases ev with
      | crashed => cases ha
      | _ => rfl

/-- A read of the Node that succeeded. -/
def NodeSuccess (ev : PubEv) : Prop := ∃ name node, ev = .asked () (.getNode name) (.ok node)

theorem nodeSeen_step (ha : (publisher cfg).apply ev p = some p') :
    (p'.nodeSeen = p.nodeSeen ∧ ∀ a, ev ≠ .locked () a) ∨
      p'.nodeSeen = true ∧ ev = .locked () .setNodeSeen := by
  cases ev with
  | crashed => cases ha
  | locked t a =>
    cases ha
    exact .inr ⟨rfl, rfl⟩
  | _ =>
    cases ha
    exact .inl ⟨rfl, nofun⟩

/-- Between the read of the Node and the note of it there is nothing else. -/
theorem Publishes.pending_next (h : Publishes cfg tr x) (hs : Step (publisher cfg) x ev y)
    (hp : Pending cfg (inProgress cfg tr)) : ev = .locked () .setNodeSeen := by
  have htid : ev.tid = some () := Publishes.tid (h.snoc hs) ev (by simp)
  have htext := h.follows_next text_code hs htid
  cases ev with
  | crashed => cases htid
  | locked t a => rfl
  | started t op =>
    cases hs with
    | started hidle ha =>
      obtain ⟨node, p, hl⟩ := hp
      cases (h.journal_idle hidle).symm.trans hl
  | finished t op r => exact absurd hp htext
  | read t =>
    obtain ⟨op, p, -, hno⟩ := htext
    exact absurd hp hno
  | asked t e r =>
    obtain ⟨op, p, -, htext⟩ := htext
    cases e with
    | getNode name =>
      obtain ⟨node, p', hl⟩ := hp
      cases htext.1.symm.trans hl
    | apply inv =>
      obtain ⟨reads, p', hdone, -⟩ := htext
      exact absurd hp hdone.not_pending
    | _ => exact absurd hp htext

/-- **Once a read of the Node has succeeded, the publisher knows**, or is about to note it. -/
theorem Publishes.seen (h : Publishes cfg tr x) (hev : ∃ ev ∈ tr, NodeSuccess ev) :
    x.shared.nodeSeen = true ∨ Pending cfg (inProgress cfg tr) := by
  induction h with
  | nil =>
    obtain ⟨ev, hev, -⟩ := hev
    cases hev
  | @snoc tr x ev y h hs ih =>
    obtain ⟨ev', hev, hsuccess⟩ := hev
    rcases List.mem_append.mp hev with hev | hev
    · rcases ih ⟨ev', hev, hsuccess⟩ with hseen | hpending
      · rcases nodeSeen_step hs.apply with ⟨hkeep, -⟩ | ⟨hseen', -⟩
        · exact .inl (hkeep.trans hseen)
        · exact .inl hseen'
      · rcases nodeSeen_step hs.apply with ⟨-, hne⟩ | ⟨hseen, -⟩
        · exact absurd (Publishes.pending_next h hs hpending) (hne _)
        · exact .inl hseen
    · obtain ⟨name, node, rfl⟩ := hsuccess
      cases List.mem_singleton.mp hev
      obtain ⟨op, p, -, hnil, rfl⟩ := h.follows_next text_code hs rfl
      refine .inr ⟨node, x.shared, ?_⟩
      rw [inProgress, h.journal_snoc hs, hnil]
      rfl

/-- The publisher is as the call saw it when it had dealt with its Node. -/
theorem Publishes.nodeSeen_eq (h : Publishes cfg tr x) {reads : PublishReads} {p : Publisher}
    (hdone : NodeDone cfg reads.node p (inProgress cfg tr) reads.rest)
    (hread : reads.node.thenDoes = .read ()) : x.shared.nodeSeen = p.nodeSeen := by
  obtain ⟨-, -, p₀, l', hl, hrest⟩ := hdone
  have hj : (publisher cfg).journal () [] {} tr
      = [(.asked () (.getNode cfg.node) reads.node, p₀)] ++ (.read (), p) :: l' := by
    rw [← hread]
    exact hl
  refine Run.journal_keeps (f := Publisher.nodeSeen) (T := fun ev => ∃ a, ev = .locked () a) h
    (fun h hs _ _ hno => ?_) (fun h hs hne _ _ => ?_) hj fun e he => ?_
  · rcases nodeSeen_step hs.apply with ⟨hkeep, -⟩ | ⟨-, he⟩
    · exact hkeep
    · exact absurd ⟨_, he⟩ hno
  · exact absurd (Publishes.tid (h.snoc hs) _ (by simp)) hne
  · rintro ⟨a, ha⟩
    have hmem : e.1 ∈ Event.read () :: reads.rest := by
      rw [← hrest]
      exact List.mem_map_of_mem he
    rw [ha] at hmem
    simp [PublishReads.rest] at hmem

/-- **An inventory says what a call has read**: it is owned by the Node with the UID that was read,
or by nothing where the Node was not found; it has one entry for each listed sandbox, in the order
of the names, with the address held for its id; and the node info is the one that was read. -/
structure Reports (cfg : PublisherConfig) (reads : PublishReads) (inv : NodeInventory) : Prop where
  owned : ∀ node, reads.node = .ok node →
    inv.ownerReferences = [⟨"v1", "Node", node.name, node.uid, none, none⟩]
  unowned : reads.node = .notFound → inv.ownerReferences = []
  entries : ∃ rows : List LiveRow, rows.Perm reads.listed ∧
    rows.Pairwise (fun row row' => row.name ≤ row'.name) ∧
    inv.entries = rows.map fun row =>
      { cfg.entry.entryFromSummary row with address := (reads.addrByID.lookup row.id).getD "" }
  info : inv.address = reads.info.address ∧ inv.pools = reads.info.pools ∧
    inv.templates = reads.info.templates
  named : inv.name = cfg.node ∧ inv.node = cfg.node ∧ inv.publishedAt = reads.publishedAt

theorem PublishReads.reports (reads : PublishReads) : Reports cfg reads (reads.inventory cfg) where
  owned := fun node hnode => by
    rw [PublishReads.inventory, hnode]
    rfl
  unowned := fun hnode => by
    rw [PublishReads.inventory, hnode]
    rfl
  entries := ⟨cfg.sort.sort LiveRow.name reads.listed, cfg.sort.perm _ _, cfg.sort.sorted _ _,
    liveEntries_eq_map⟩
  info := ⟨rfl, rfl, rfl⟩
  named := ⟨rfl, rfl, rfl⟩

/-- **The inventory is never applied unowned after its Node was seen, nor from a partial read.**
Before an apply, the call has read the Node, the listing with the addresses and the node info, each
with success, the Node possibly with a NotFound; the inventory holds exactly this, and names the UID
that was read; and if it names no owner, no read of the Node has ever succeeded. -/
theorem inventory_never_unowned {inv : NodeInventory} {r : PublisherReply (.apply inv)}
    (h : Publishes cfg tr x) (hs : Step (publisher cfg) x (.asked () (.apply inv) r) y) :
    ∃ (earlier : List PubEv) (reads : PublishReads),
      tr = earlier ++ .started () .publish :: reads.events cfg ∧
      (∀ err, reads.node ≠ .failed err) ∧ inv = reads.inventory cfg ∧ Reports cfg reads inv ∧
      (inv.ownerReferences = [] → ∀ ev ∈ tr, ¬ NodeSuccess ev) := by
  obtain ⟨⟨⟩, p, hp, reads, p', hdone, rfl⟩ := h.follows_next text_code hs rfl
  obtain ⟨earlier, htr⟩ := h.journal_alone (Publishes.tid h) hp
  refine ⟨earlier, reads, ?_, hdone.accepted, rfl, reads.reports, fun howners ev hev hsuccess => ?_⟩
  · obtain ⟨p₀, l', hl, hrest⟩ := hdone.journal
    rw [hl, List.map_cons, List.map_cons, hrest] at htr
    exact htr
  -- without an owner the Node was not found, and the publisher had not seen it before
  have hnode : reads.node = .notFound := by
    cases hnode : reads.node with
    | ok node => rw [PublishReads.inventory, hnode] at howners; cases howners
    | notFound => rfl
    | failed err => exact absurd hnode (hdone.accepted err)
  have hunseen : x.shared.nodeSeen = false :=
    (Publishes.nodeSeen_eq h hdone (by rw [hnode]; rfl)).trans (hdone.unseen hnode)
  rcases Publishes.seen h ⟨ev, hev, hsuccess⟩ with hseen | hpending
  · rw [hunseen] at hseen
    cases hseen
  · exact hdone.not_pending hpending

/-- A publisher of node `n1`. -/
def samplePublisher : PublisherConfig :=
  { node := "n1", kind := "NodeInventory", apiVersion := "v1", sort := .insertion,
    entry := .documented }

/-- What the world answers to a publisher that holds `s1` at an address. -/
def sampleAnswer (node : NodeRead) (listed : Except String (List LiveRow)) :
    (e : PublisherRequest) → PublisherReply e
  | .getNode _ => node
  | .sandboxes => listed
  | .claimAddresses => (Finmap.singleton "s1" "10.0.0.5:7777" : Table String String)
  | .now => (5 * second : Time)
  | .nodeInfo => (.ok ⟨"172.16.26.2:7777", [], []⟩ : Except String NodeInfo)
  | .apply _ => (.ok () : Except String Unit)

/-- A first call finds the Node and no listing; a second one applies, and names the Node by the UID
it has read itself. -/
theorem inventory_never_unowned_of_second_call :
    ∃ tr x y inv r, Publishes samplePublisher tr x ∧
      Step (publisher samplePublisher) x (.asked () (.apply inv) r) y ∧
      inv.ownerReferences = [⟨"v1", "Node", "n1", "uid-2", none, none⟩] ∧
      inv.entries.map (fun e => (e.name, e.id, e.address)) = [("ns/p", "s1", "10.0.0.5:7777")] ∧
      ∃ (earlier : List PubEv) (reads : PublishReads),
        tr = earlier ++ .started () .publish :: reads.events samplePublisher ∧
        Reports samplePublisher reads inv := by
  obtain ⟨tr, x, h, inv, k, hp, howner, hentries⟩ :
      ∃ tr x, Publishes samplePublisher tr x ∧ ∃ inv k,
      x.tasks () = some (.publish, .ask (.apply inv) k) ∧
      inv.ownerReferences = [⟨"v1", "Node", "n1", "uid-2", none, none⟩] ∧
      inv.entries.map (fun e => (e.name, e.id, e.address)) = [("ns/p", "s1", "10.0.0.5:7777")] :=
    ⟨_, _, Config.run_of_exec (rfl : Config.exec (publisher samplePublisher)
      (.start () .publish ::
        List.replicate 4 (.move () (sampleAnswer (.ok ⟨"n1", "uid-1"⟩) (.error "down"))) ++
        .start () .publish :: List.replicate 6
          (.move () (sampleAnswer (.ok ⟨"n1", "uid-2"⟩) (.ok [sampleRow "s1" "ns/p"]))))
      ⟨{}, fun _ => none⟩ = some (_, _)), _, _, rfl, rfl, by decide⟩
  have hs : Step (publisher samplePublisher) x
      (.asked () (.apply inv) (.ok () : Except String Unit)) _ :=
    .asked hp rfl
  obtain ⟨earlier, reads, htr, -, -, hreports, -⟩ := inventory_never_unowned h hs
  exact ⟨tr, x, _, inv, _, h, hs, howner, hentries, earlier, reads, htr, hreports⟩

end VkSandbox

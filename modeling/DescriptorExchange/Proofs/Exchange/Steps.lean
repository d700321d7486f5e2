import DescriptorExchange.Proofs.Exchange.Completing

/-!
What each step of the exchange comes to. Later proofs about a step go through these statements and
do not look at its definition.
-/
namespace DescriptorExchange

def Placement.isNew : Placement → Bool
  | .created _ => true
  | .present _ => false

namespace Cycle

/-- The cycle once it has been told which record comes next. -/
def follow (c : Cycle) (next : RecordHandle) : Cycle :=
  if c.mode = .chain ∧ next ≠ RecordHandle.terminator then
    { c with seen := c.seen.insert next, queue := c.queue ++ [next] }
  else c

variable (c : Cycle) (next : RecordHandle)

@[simp] theorem follow_id : (c.follow next).id = c.id := by simp only [follow]; split_ifs <;> rfl

@[simp] theorem follow_before : (c.follow next).before = c.before := by
  simp only [follow]; split_ifs <;> rfl

@[simp] theorem follow_touched : (c.follow next).touched = c.touched := by
  simp only [follow]; split_ifs <;> rfl

end Cycle

namespace Exchange

/-- What no step of a cycle changes. -/
def fixed (x : Exchange) : CycleId × ExchangeSettings × Bool := (x.nextCycle, x.settings, x.hostUp)

/-- The exchange with a grown tree, after the inventory has been told of the node if it is new. -/
def grow (x : Exchange) (tree : Containment) (placement : Placement) (child : Entity) : Exchange :=
  match placement with
  | .present _ => { x with tree }
  | .created id =>
    let notice :=
      (Exchange.path? { x with tree } id).map fun path => InventoryNotice.attached path child
    { x with tree, notices := x.notices ++ notice.toList }

section grow

variable (x : Exchange) (tree : Containment) (placement : Placement) (child : Entity)

@[simp] theorem grow_tree : (x.grow tree placement child).tree = tree := by cases placement <;> rfl

@[simp] theorem grow_repository : (x.grow tree placement child).repository = x.repository := by
  cases placement <;> rfl

@[simp] theorem grow_cycle : (x.grow tree placement child).cycle = x.cycle := by
  cases placement <;> rfl

@[simp] theorem grow_fixed : (x.grow tree placement child).fixed = x.fixed := by
  cases placement <;> rfl

@[simp] theorem grow_settings : (x.grow tree placement child).settings = x.settings := by
  cases placement <;> rfl

@[simp] theorem grow_imports : (x.grow tree placement child).imports = x.imports := by
  cases placement <;> rfl

@[simp] theorem grow_termini : (x.grow tree placement child).termini = x.termini := by
  cases placement <;> rfl

end grow

theorem mergeChild_of_refused {x : Exchange} {node : NodeId} {parent child : Entity} {kind : UInt8}
    {e : ContainmentError} (h : x.tree.attach node child .host = .error e) :
    x.mergeChild node parent kind child = (x, .ok none) := by
  simp only [mergeChild, h]

theorem mergeChild_of_attached {x : Exchange} {node : NodeId} {parent child : Entity} {kind : UInt8}
    {tree : Containment} {placement : Placement}
    (h : x.tree.attach node child .host = .ok (tree, placement)) :
    x.mergeChild node parent kind child = match x.repository.associate parent kind child with
      | .error e => (x.grow tree placement child, .error e)
      | .ok (repository, handle, changed) =>
        let listed := { x.grow tree placement child with repository }
        (if changed then listed.touch [handle] else listed,
          .ok (if placement.isNew ∨ changed then some handle else none)) := by
  cases placement <;> simp only [mergeChild, h] <;> rfl

/-- A child that is merged is passed over, or it is attached and listed. -/
theorem mergeChild_eq_ok {x y : Exchange} {node : NodeId} {parent child : Entity} {kind : UInt8}
    {record : Option RecordHandle} (h : x.mergeChild node parent kind child = (y, .ok record)) :
    (y = x ∧ record = none ∧ ∃ e, x.tree.attach node child .host = .error e) ∨
      ∃ tree placement s k changed, x.tree.attach node child .host = .ok (tree, placement) ∧
        x.repository.associate parent kind child = .ok (s, k, changed) ∧
        record = (if placement.isNew ∨ changed then some k else none) ∧
        y = let listed := { x.grow tree placement child with repository := s }
          if changed then listed.touch [k] else listed := by
  cases hattach : x.tree.attach node child .host with
  | error e =>
    rw [mergeChild_of_refused hattach] at h
    obtain ⟨rfl, hrecord⟩ := Prod.mk.inj h
    exact .inl ⟨rfl, (Except.ok.inj hrecord).symm, e, rfl⟩
  | ok grown =>
    obtain ⟨tree, placement⟩ := grown
    rw [mergeChild_of_attached hattach] at h
    cases hassociate : x.repository.associate parent kind child with
    | error cause => simp [hassociate] at h
    | ok found =>
      obtain ⟨s, k, changed⟩ := found
      simp only [hassociate, Prod.mk.injEq, Except.ok.injEq] at h
      exact .inr ⟨tree, placement, s, k, changed, rfl, rfl, h.2.symm, h.1.symm⟩

/-- Of several children that are merged the first one is, and then the others. -/
theorem mergeChildren_cons_eq_ok {x y : Exchange} {node : NodeId} {parent child : Entity}
    {kind : UInt8} {rest : List Entity} {new : List (Entity × RecordHandle)}
    (h : mergeChildren node parent kind (child :: rest) x = (y, .ok new)) :
    ∃ z record more, x.mergeChild node parent kind child = (z, .ok record) ∧
      mergeChildren node parent kind rest z = (y, .ok more) ∧
      new = (record.map fun k => (child, k)).toList ++ more := by
  unfold mergeChildren at h
  split at h
  next => simp at h
  next z record hchild =>
    split at h
    next => simp at h
    next last more hrest =>
      obtain ⟨rfl, hnew⟩ := Prod.mk.inj h
      exact ⟨z, record, more, hchild, hrest, (Except.ok.inj hnew).symm⟩

/-- The child at which a merge fails has been attached, and cannot be listed. -/
theorem mergeChild_fails {x y : Exchange} {node : NodeId} {parent child : Entity} {kind : UInt8}
    {e : RepositoryError} (h : x.mergeChild node parent kind child = (y, .error e)) :
    ∃ tree placement, x.tree.attach node child .host = .ok (tree, placement) ∧
      x.repository.associate parent kind child = .error e ∧ y = x.grow tree placement child := by
  cases hattach : x.tree.attach node child .host with
  | error cause => simp [mergeChild_of_refused hattach] at h
  | ok grown =>
    obtain ⟨tree, placement⟩ := grown
    rw [mergeChild_of_attached hattach] at h
    cases hassociate : x.repository.associate parent kind child with
    | ok listed => simp [hassociate] at h
    | error cause =>
      simp only [hassociate, Prod.mk.injEq, Except.error.injEq] at h
      obtain ⟨rfl, rfl⟩ := h
      exact ⟨tree, placement, rfl, rfl, rfl⟩

/-- A merge fails at one of the children, when those before it are done. -/
theorem mergeChildren_fails {x y : Exchange} {node : NodeId} {parent : Entity} {kind : UInt8}
    {children : List Entity} {e : RepositoryError}
    (h : mergeChildren node parent kind children x = (y, .error e)) :
    ∃ done child later z new, children = done ++ child :: later ∧
      mergeChildren node parent kind done x = (z, .ok new) ∧
      z.mergeChild node parent kind child = (y, .error e) := by
  induction children generalizing x with
  | nil => simp [mergeChildren] at h
  | cons first rest ih =>
    unfold mergeChildren at h
    split at h
    next mid cause hfirst =>
      obtain ⟨rfl, hcause⟩ := Prod.mk.inj h
      obtain rfl := Except.error.inj hcause
      exact ⟨[], first, rest, x, [], rfl, rfl, hfirst⟩
    next mid record hfirst =>
      split at h
      next last cause hrest =>
        obtain ⟨rfl, hcause⟩ := Prod.mk.inj h
        obtain rfl := Except.error.inj hcause
        obtain ⟨done, child, later, z, new, rfl, hdone, hfails⟩ := ih hrest
        have hall : mergeChildren node parent kind (first :: done) x =
            (z, .ok ((record.map fun k => (first, k)).toList ++ new)) := by
          simp only [mergeChildren, hfirst, hdone]
        exact ⟨first :: done, child, later, z, _, rfl, hall, hfails⟩
      next => simp at h

/-- The exchange whose cycle has found a parent. -/
def findParent (x : Exchange) : Exchange := x.mapCycle fun c => { c with parentFound := true }

/-- An association is skipped for want of a parent, or its children are merged. What was new among
them, if anything, is noted for the import. -/
theorem merge_cases (x : Exchange) (h : RecordHandle) (a : Association) :
    x.merge h a = (x.skip, .ok ()) ∨ ∃ node parent y,
      x.parentNode? a.container = some node ∧ x.tree.entity? node = some parent ∧
      ((∃ e, mergeChildren node parent a.kind a.children x.findParent = (y, .error e) ∧
        x.merge h a = (y, .error e)) ∨
      ∃ new, mergeChildren node parent a.kind a.children x.findParent = (y, .ok new) ∧
        ((new = [] ∧ x.merge h a = ({ y with counts.merged := y.counts.merged + 1 }, .ok ())) ∨
        ∃ child k, (child, k) ∈ new ∧ x.merge h a =
          ({ y with
              counts.merged := y.counts.merged + 1
              imports := y.imports.insert h (.merged parent (new.map Prod.fst) k) }, .ok ()))) := by
  unfold merge findParent
  split
  next => exact .inl rfl
  next node hnode =>
    split
    next => exact .inl rfl
    next parent hparent =>
      refine .inr ⟨node, parent, ?_⟩
      split
      next y e heq => exact ⟨y, hnode, hparent, .inl ⟨e, heq, rfl⟩⟩
      next y new heq =>
        refine ⟨y, hnode, hparent, .inr ⟨new, heq, ?_⟩⟩
        dsimp only
        split
        next hlast => exact .inl ⟨List.getLast?_eq_none_iff.mp hlast, rfl⟩
        next child k hlast => exact .inr ⟨child, k, List.mem_of_getLast? hlast, rfl⟩

/-- Merging an association fails only in its children. -/
theorem merge_fails {x y : Exchange} {hostHandle : RecordHandle} {a : Association}
    {e : RepositoryError} (h : x.merge hostHandle a = (y, .error e)) :
    ∃ node parent, x.parentNode? a.container = some node ∧ x.tree.entity? node = some parent ∧
      mergeChildren node parent a.kind a.children x.findParent = (y, .error e) := by
  rcases x.merge_cases hostHandle a with
    heq | ⟨node, parent, z, hnode, hparent, ⟨cause, hchildren, heq⟩ | ⟨new, -, hcases⟩⟩
  · simp [heq] at h
  · obtain ⟨rfl, hcause⟩ := Prod.mk.inj (heq.symm.trans h)
    obtain rfl := Except.error.inj hcause
    exact ⟨node, parent, hnode, hparent, hchildren⟩
  · rcases hcases with ⟨-, heq⟩ | ⟨child, k, -, heq⟩ <;> simp [heq] at h

/-- The three ways of taking a merge back: the child is gone, it came from the host and goes with
everything below it, or it is the controller's own and only loses the listing. -/
theorem unmerge_cases (x : Exchange) (record : RecordHandle) (child : Entity) :
    (x.tree.findExact? child = none ∧ x.unmerge record child = (x, .ok [])) ∨
    (∃ id notices touched, x.tree.findExact? child = some id ∧ x.tree.origin? id = some .host ∧
      (stripAll x.settings.ownRange (x.tree.detach id).2 x.repository).2 = .ok touched ∧
      x.unmerge record child =
        ({ x with
            tree := (x.tree.detach id).1
            repository := (stripAll x.settings.ownRange (x.tree.detach id).2 x.repository).1
            notices },
          .ok touched)) ∨
    (∃ id, x.tree.findExact? child = some id ∧ x.tree.origin? id ≠ some .host ∧
      ((x.repository.get? record = none ∧ x.unmerge record child = (x, .ok [])) ∨
        ∃ entry, x.repository.get? record = some entry ∧
          x.unmerge record child = match x.repository.removeChild record child with
            | .error e => (x, .error e)
            | .ok (repository, changed) =>
              ({ x with repository }, .ok (if changed then [record] else [])))) := by
  cases hf : x.tree.findExact? child with
  | none => exact .inl ⟨rfl, by simp only [unmerge, hf]⟩
  | some id =>
    right
    by_cases horigin : x.tree.origin? id = some .host
    · obtain ⟨touched, hstrip⟩ := stripAll_ok x.settings.ownRange (x.tree.detach id).2 x.repository
      exact .inl ⟨id, _, touched, rfl, horigin, hstrip,
        by simp only [unmerge, hf, if_pos horigin, hstrip]; rfl⟩
    · refine .inr ⟨id, rfl, horigin, ?_⟩
      cases hr : x.repository.get? record with
      | none => exact .inl ⟨rfl, by simp [unmerge, hf, horigin, hr]⟩
      | some entry =>
        refine .inr ⟨entry, rfl, ?_⟩
        cases hremove : x.repository.removeChild record child <;>
          simp [unmerge, hf, horigin, hr, hremove]

/-- Taking a merge back changes nothing but the tree, the repository and what the inventory is told. -/
theorem unmerge_eq (x : Exchange) (record : RecordHandle) (child : Entity) :
    ∃ tree repository notices,
      (x.unmerge record child).1 = { x with tree, repository, notices } := by
  rcases x.unmerge_cases record child with
    ⟨-, h⟩ | ⟨id, notices, touched, -, -, -, h⟩ | ⟨id, -, -, ⟨-, h⟩ | ⟨entry, -, h⟩⟩
  · exact ⟨x.tree, x.repository, x.notices, by rw [h]⟩
  · exact ⟨_, _, notices, by rw [h]⟩
  · exact ⟨x.tree, x.repository, x.notices, by rw [h]⟩
  · rw [h]
    split
    next => exact ⟨x.tree, x.repository, x.notices, rfl⟩
    next repository _ _ => exact ⟨x.tree, repository, x.notices, rfl⟩

/-- The record to be dropped is not there, or it is removed, and besides the repository only the map of
termini may change. -/
theorem dropStored_cases (x : Exchange) (k : RecordHandle) :
    (x.repository.get? k = none ∧ x.dropStored k = (x, [], false)) ∨
      ∃ termini sensor, x.dropStored k =
        ({ x with repository := x.repository.erase k, termini }, [k], sensor) := by
  unfold dropStored
  cases hget : x.repository.get? k with
  | none => exact .inl ⟨rfl, rfl⟩
  | some record =>
    right
    dsimp only
    split_ifs
    · exact ⟨_, _, rfl⟩
    · split <;> exact ⟨_, _, rfl⟩
    · exact ⟨_, _, rfl⟩

/-! What every step of a pass preserves, the pass preserves, wherever it stops. -/

section passes

variable {p : Exchange → Prop} {x : Exchange}

/-- What attaching a child, listing it and noting the record preserve, merging it preserves. -/
theorem mergeChild_induction {node : NodeId} {parent child : Entity} {kind : UInt8} (hx : p x)
    (hgrow : ∀ tree placement, x.tree.attach node child .host = .ok (tree, placement) →
      p (x.grow tree placement child))
    (hlist : ∀ tree placement s k changed,
      x.repository.associate parent kind child = .ok (s, k, changed) →
        p (x.grow tree placement child) → p { x.grow tree placement child with repository := s })
    (htouch : ∀ y k, p y → p (y.touch [k])) : p (x.mergeChild node parent kind child).1 := by
  cases hattach : x.tree.attach node child .host with
  | error e => rwa [mergeChild_of_refused hattach]
  | ok grown =>
    obtain ⟨tree, placement⟩ := grown
    have hgrown := hgrow tree placement hattach
    rw [mergeChild_of_attached hattach]
    cases hassociate : x.repository.associate parent kind child with
    | error e => exact hgrown
    | ok found =>
      obtain ⟨s, k, changed⟩ := found
      have hlisted := hlist tree placement s k changed hassociate hgrown
      cases changed
      · exact hlisted
      · exact htouch _ k hlisted

theorem mergeChildren_induction {node : NodeId} {parent : Entity} {kind : UInt8}
    (hstep : ∀ y child, p y → p (y.mergeChild node parent kind child).1) (children : List Entity)
    (hx : p x) : p (mergeChildren node parent kind children x).1 := by
  induction children generalizing x with
  | nil => exact hx
  | cons child rest ih =>
    have hchild := hstep x child hx
    unfold mergeChildren
    split
    next heq => rwa [heq] at hchild
    next y record heq =>
      rw [heq] at hchild
      have hrest := ih hchild
      split
      next heq' => rwa [heq'] at hrest
      next heq' => rwa [heq'] at hrest

/-- What finding the parent, merging a child and noting the import preserve, a merge preserves. -/
theorem merge_induction {h : RecordHandle} {a : Association} (hskip : p x.skip)
    (hfound : p x.findParent)
    (hchild : ∀ node parent y child, p y → p (y.mergeChild node parent a.kind child).1)
    (hnoted : ∀ y imports, p y → p { y with counts.merged := y.counts.merged + 1, imports }) :
    p (x.merge h a).1 := by
  rcases x.merge_cases h a with
    heq | ⟨node, parent, y, -, -, ⟨e, hchildren, heq⟩ | ⟨new, hchildren, hcases⟩⟩
  · rw [heq]
    exact hskip
  all_goals
    have hy := mergeChildren_induction (hchild node parent) a.children hfound
    rw [hchildren] at hy
  · rw [heq]
    exact hy
  · rcases hcases with ⟨-, heq⟩ | ⟨child, k, -, heq⟩
    · rw [heq]
      exact hnoted y y.imports hy
    · rw [heq]
      exact hnoted y _ hy

theorem unmergeAll_induction {k : RecordHandle} (hstep : ∀ y child, p y → p (y.unmerge k child).1)
    (children : List Entity) (hx : p x) : p (unmergeAll k children x).1 := by
  induction children generalizing x with
  | nil => exact hx
  | cons child rest ih =>
    have hchild := hstep x child hx
    unfold unmergeAll
    split
    next heq => rwa [heq] at hchild
    next y touched heq =>
      rw [heq] at hchild
      have hrest := ih hchild
      split
      next heq' => rwa [heq'] at hrest
      next heq' => rwa [heq'] at hrest

theorem retractImports_induction {imports : List Import}
    (hstep : ∀ parent children k, Import.merged parent children k ∈ imports →
      ∀ y child, p y → p (y.unmerge k child).1) (hx : p x) : p (retractImports imports x).1 := by
  induction imports generalizing x with
  | nil => exact hx
  | cons i rest ih =>
    have hrest {y : Exchange} (hy : p y) : p (retractImports rest y).1 :=
      ih (fun parent children k hmem => hstep parent children k (List.mem_cons_of_mem _ hmem)) hy
    cases i with
    | stored k => exact hrest hx
    | merged parent children k =>
      have hchildren (es : List Entity) {y : Exchange} (hy : p y) : p (retractChildren k es y).1 := by
        induction es generalizing y with
        | nil => exact hy
        | cons e es ih => exact ih (hstep parent children k List.mem_cons_self y e hy)
      exact hrest (hchildren children hx)

theorem dropImports_induction (hstep : ∀ y h, p y → p (y.dropImport h).1)
    (handles : List RecordHandle) (hx : p x) : p (dropImports handles x).1 := by
  induction handles generalizing x with
  | nil => exact hx
  | cons h rest ih =>
    have hfirst := hstep x h hx
    unfold dropImports
    split
    next heq => rwa [heq] at hfirst
    next y touched sensor heq =>
      rw [heq] at hfirst
      have hrest := ih hfirst
      split
      next heq' => rwa [heq'] at hrest
      next heq' => rwa [heq'] at hrest

end passes

/-- Whether a record is skipped, merged or stored depends on the record alone. -/
theorem classify_uniform (header : RecordHeader) (record : Bytes) :
    (∀ x : Exchange, x.classify header record = (x.skip, .ok ())) ∨
    (∃ found, decodeRecord Association record = .ok found ∧
      ∀ x : Exchange, x.classify header record = x.merge header.handle found.2) ∨
    (∃ note : Termini → Termini, header.type ≠ .entityAssociation ∧ ∀ x : Exchange,
      x.classify header record =
      { x with termini := note x.termini }.store header.handle record) := by
  by_cases ha : header.type = .entityAssociation
  · cases hd : decodeRecord Association record with
    | error e => exact .inl fun x => by simp only [classify, if_pos ha, hd]
    | ok found => exact .inr (.inl ⟨found, rfl, fun x => by simp only [classify, if_pos ha, hd]⟩)
  by_cases hs : header.type = .stateSensor
  · cases hd : decodeRecord StateSensor record with
    | error e => exact .inl fun x => by simp only [classify, if_neg ha, if_pos hs, hd]
    | ok found =>
      exact .inr (.inr ⟨id, ha, fun x => by simp only [classify, if_neg ha, if_pos hs, hd]; rfl⟩)
  by_cases ht : header.type = .terminusLocator
  · cases hd : decodeRecord TerminusLocator record with
    | error e => exact .inl fun x => by simp only [classify, if_neg ha, if_neg hs, if_pos ht, hd]
    | ok found =>
      exact .inr (.inr
        ⟨fun termini => termini.insert found.2.terminusHandle (.ofLocator found.2), ha,
        fun x => by simp only [classify, if_neg ha, if_neg hs, if_pos ht, hd]⟩)
  · exact .inr (.inr ⟨id, ha,
      fun x => by simp only [classify, if_neg ha, if_neg hs, if_neg ht]; rfl⟩)

/-- The exchange once its cycle has seen a handle. -/
def see (x : Exchange) (h : RecordHandle) : Exchange :=
  x.mapCycle fun c => { c with seen := c.seen.insert h }

/-- A record that cannot be read is skipped. One that has been imported before is forgotten first,
unless that fails. -/
theorem importRecord_cases (x : Exchange) (record : Bytes) :
    (∃ e, RecordHeader.split record = .error e ∧ x.importRecord record = (x.skip, .ok ())) ∨
    ∃ header body, RecordHeader.split record = .ok (header, body) ∧
      ((header.handle ∉ x.imports ∧
        x.importRecord record = (x.see header.handle).classify header record) ∨
      (header.handle ∈ x.imports ∧
        ((∃ y e, (x.see header.handle).forget [header.handle] = (y, .error e) ∧
          x.importRecord record = (y, .error e)) ∨
        ∃ y touched, (x.see header.handle).forget [header.handle] = (y, .ok touched) ∧
          x.importRecord record = (y.touch touched.toList).classify header record))) := by
  unfold importRecord
  cases RecordHeader.split record with
  | error e => exact .inl ⟨e, rfl, rfl⟩
  | ok found =>
    obtain ⟨header, body⟩ := found
    refine .inr ⟨header, body, rfl, ?_⟩
    by_cases hknown : header.handle ∈ x.imports
    · refine .inr ⟨hknown, ?_⟩
      have hseen : header.handle ∈ (x.see header.handle).imports := hknown
      simp only [see] at hseen ⊢
      rw [if_pos hseen]
      split
      next y e heq => exact .inl ⟨y, e, heq, rfl⟩
      next y touched heq => exact .inr ⟨y, touched, heq, rfl⟩
    · exact .inl ⟨hknown, if_neg hknown⟩

/-- The exchange once the outstanding request of its cycle has been answered. -/
def answered (x : Exchange) (c : Cycle) : Exchange :=
  { x with cycle := some { c with inFlight := none } }

/-- An answer to the outstanding request of the running cycle cannot be read, or its record makes the
repository fail, or the cycle goes on from the record. -/
theorem receive_of_inFlight {x y : Exchange} {c : Cycle} {handle : RecordHandle}
    {answer : Except RequestError Bytes} {result : Except ExchangeError FetchOutcome}
    (hc : x.cycle = some c) (hflight : c.inFlight = some handle)
    (h : x.receive c.id answer = (y, result)) :
    (∃ e, readAnswer handle answer = .error e ∧ y = (x.answered c).abort e ∧ result = .error e) ∨
    ∃ record next, readAnswer handle answer = .ok (record, next) ∧
      ((∃ z e, (x.answered c).importRecord record = (z, .error e) ∧ y = z.abort (.fatal e) ∧
        result = .error (.fatal e)) ∨
      ∃ z, (x.answered c).importRecord record = (z, .ok ()) ∧ z.advance next = (y, result)) := by
  unfold receive at h
  simp only [hc, hflight, ne_eq, not_true_eq_false, if_false] at h
  cases ha : readAnswer handle answer with
  | error e =>
    simp only [ha, Prod.mk.injEq] at h
    exact .inl ⟨e, rfl, h.1.symm, h.2.symm⟩
  | ok read =>
    obtain ⟨record, next⟩ := read
    simp only [ha] at h
    refine .inr ⟨record, next, rfl, ?_⟩
    split at h
    next z e hi =>
      simp only [Prod.mk.injEq] at h
      exact .inl ⟨z, e, hi, h.1.symm, h.2.symm⟩
    next z hi => exact .inr ⟨z, hi, h⟩

/-- An answer belongs to nothing, or it answers the outstanding request of the running cycle. -/
theorem receive_cases {x y : Exchange} {cycle : CycleId} {answer : Except RequestError Bytes}
    {result : Except ExchangeError FetchOutcome} (h : x.receive cycle answer = (y, result)) :
    (y = { x with counts.stale := x.counts.stale + 1 } ∧ result = .ok .stale) ∨
    ∃ c handle, x.cycle = some c ∧ c.id = cycle ∧ c.inFlight = some handle ∧
      ((∃ e, readAnswer handle answer = .error e ∧ y = (x.answered c).abort e ∧ result = .error e) ∨
      ∃ record next, readAnswer handle answer = .ok (record, next) ∧
        ((∃ z e, (x.answered c).importRecord record = (z, .error e) ∧ y = z.abort (.fatal e) ∧
          result = .error (.fatal e)) ∨
        ∃ z, (x.answered c).importRecord record = (z, .ok ()) ∧ z.advance next = (y, result))) := by
  have hdropped (hreceive : x.receive cycle answer =
      ({ x with counts.stale := x.counts.stale + 1 }, .ok .stale)) :
      y = { x with counts.stale := x.counts.stale + 1 } ∧ result = .ok .stale := by
    obtain ⟨rfl, rfl⟩ := Prod.mk.inj (h.symm.trans hreceive)
    exact ⟨rfl, rfl⟩
  rcases Option.eq_none_or_eq_some x.cycle with hc | ⟨c, hc⟩
  · exact .inl (hdropped (by simp only [receive, hc]))
  rcases Option.eq_none_or_eq_some c.inFlight with hflight | ⟨handle, hflight⟩
  · exact .inl (hdropped (by simp only [receive, hc, hflight]))
  by_cases hid : c.id = cycle
  · subst hid
    exact .inr ⟨c, handle, hc, rfl, hflight, receive_of_inFlight hc hflight h⟩
  · exact .inl (hdropped (by simp only [receive, hc, hflight, ne_eq, hid, not_false_eq_true, if_true]))

/-- An awaited answer with a record that is imported. -/
theorem receive_of_import {x y : Exchange} {c : Cycle} {handle next : RecordHandle}
    {answer : Except RequestError Bytes} {record : Bytes} (hc : x.cycle = some c)
    (hflight : c.inFlight = some handle) (hread : readAnswer handle answer = .ok (record, next))
    (himport : (x.answered c).importRecord record = (y, .ok ())) :
    x.receive c.id answer = y.advance next := by
  unfold answered at himport
  simp [receive, hc, hflight, hread, himport]

/-- An awaited answer with a record that makes the repository fail. -/
theorem receive_of_failure {x y : Exchange} {c : Cycle} {handle next : RecordHandle}
    {answer : Except RequestError Bytes} {record : Bytes} {e : RepositoryError} (hc : x.cycle = some c)
    (hflight : c.inFlight = some handle) (hread : readAnswer handle answer = .ok (record, next))
    (himport : (x.answered c).importRecord record = (y, .error e)) :
    x.receive c.id answer = (y.abort (.fatal e), .error (.fatal e)) := by
  unfold answered at himport
  simp [receive, hc, hflight, hread, himport]

theorem advance_eq {x : Exchange} {c : Cycle} (hc : x.cycle = some c) (next : RecordHandle) :
    x.advance next =
      if (c.mode = .chain ∧ next ≠ RecordHandle.terminator) ∧ next ∈ c.seen then
        (x.abort (.chainLoop next), .error (.chainLoop next))
      else
        let followed := { x with cycle := some (c.follow next) }
        if (c.follow next).queue.isEmpty then
          (followed.completed, .ok (.complete (followed.completion? (c.follow next))))
        else (followed, .ok .proceed) := by
  simp only [advance, hc, finish_eq]
  rfl

/-- After a record the chain comes back to where it has been, or the cycle completes because
nothing is left to ask for, or there is another record to ask for. -/
theorem advance_cases {x y : Exchange} {next : RecordHandle}
    {result : Except ExchangeError FetchOutcome} (h : x.advance next = (y, result)) :
    (x.cycle = none ∧ y = x ∧ result = .ok .stale) ∨
    ∃ c, x.cycle = some c ∧
      ((y = x.abort (.chainLoop next) ∧ result = .error (.chainLoop next)) ∨
      (y = { x with cycle := some (c.follow next) }.completed ∧
        result = .ok (.complete ({ x with cycle := some (c.follow next) }.completion? (c.follow next)))) ∨
      (y = { x with cycle := some (c.follow next) } ∧ result = .ok .proceed)) := by
  cases hc : x.cycle with
  | none =>
    simp only [advance, hc, Prod.mk.injEq] at h
    exact .inl ⟨rfl, h.1.symm, h.2.symm⟩
  | some c =>
    rw [advance_eq hc] at h
    refine .inr ⟨c, rfl, ?_⟩
    split_ifs at h
    all_goals simp only [Prod.mk.injEq] at h
    · exact .inl ⟨h.1.symm, h.2.symm⟩
    · exact .inr (.inl ⟨h.1.symm, h.2.symm⟩)
    · exact .inr (.inr ⟨h.1.symm, h.2.symm⟩)

end Exchange
end DescriptorExchange

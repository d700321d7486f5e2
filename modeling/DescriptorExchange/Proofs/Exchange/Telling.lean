import DescriptorExchange.Proofs.Containment.Chronicle
import DescriptorExchange.Proofs.Exchange.Failures

/-!
The exchange tells the inventory of each node of the host that comes into its tree and of each that
leaves it, and of nothing else. Merging a child and taking a merge back are the only steps that change
the tree, and each of them tells what it changes.
-/
namespace DescriptorExchange.Exchange

open Containment

variable {x y z : Exchange} {base : Containment}

/-- What the telling depends on. -/
def outlook (x : Exchange) : EntityNames × ExchangeSettings × Containment × List InventoryNotice :=
  (x.names, x.settings, x.tree, x.notices)

theorem outlook_eq_iff : y.outlook = x.outlook ↔
    y.names = x.names ∧ y.settings = x.settings ∧ y.tree = x.tree ∧ y.notices = x.notices := by
  simp [outlook]

/-! What merging a child and taking back a merge preserve, every call preserves, if it can be read off
the outlook. -/

section calls

variable {p : Exchange → Prop} (hlook : ∀ {y z : Exchange}, z.outlook = y.outlook → p y → p z)
  (hchild : ∀ y node parent kind child, p y → p (y.mergeChild node parent kind child).1)
  (hback : ∀ y k child, p y → p (y.unmerge k child).1)

include hlook hback in
theorem dropImport_of_outlook (hx : p x) (h : RecordHandle) : p (x.dropImport h).1 := by
  simp only [dropImport]
  split
  next => exact hx
  next k _ =>
    rcases dropStored_cases { x with imports := x.imports.erase h } k with
      ⟨-, heq⟩ | ⟨termini, sensor, heq⟩
    all_goals
      rw [heq]
      exact hlook (by rfl) hx
  next parent children k _ =>
    have hundone : p (unmergeAll k children { x with imports := x.imports.erase h }).1 :=
      unmergeAll_induction (fun y child => hback y k child) children (hlook (by rfl) hx)
    split
    next heq => rwa [heq] at hundone
    next heq => rwa [heq] at hundone

include hlook hback in
theorem forget_of_outlook (hx : p x) (handles : List RecordHandle) : p (x.forget handles).1 := by
  have hdropped : p (dropImports handles x).1 :=
    dropImports_induction (p := p) (fun y h hy => dropImport_of_outlook hlook hback hy h) handles hx
  unfold forget
  split
  next heq => rwa [heq] at hdropped
  next y touched sensors heq =>
    rw [heq] at hdropped
    refine hlook ?_ hdropped
    cases sensors <;> rfl

include hlook hchild in
theorem classify_of_outlook (hx : p x) (header : RecordHeader) (record : Bytes) :
    p (x.classify header record).1 := by
  rcases classify_uniform header record with hskip | ⟨⟨_, a⟩, -, hmerge⟩ | ⟨note, -, hstore⟩
  · rw [hskip]
    exact hlook (by rfl) hx
  · rw [hmerge]
    exact merge_induction (hlook (by rfl) hx) (hlook (by rfl) hx)
      (fun node parent y child => hchild y node parent a.kind child)
      fun y imports => hlook (by rfl)
  · rw [hstore]
    refine hlook ?_ hx
    unfold store
    split <;> rfl

include hlook hchild hback

theorem importRecord_of_outlook (hx : p x) (record : Bytes) : p (x.importRecord record).1 := by
  rcases x.importRecord_cases record with ⟨e, -, heq⟩ | ⟨header, body, -, hcases⟩
  · rw [heq]
    exact hlook (by rfl) hx
  have hseen : p (x.see header.handle) := hlook (by rfl) hx
  have hforgotten := forget_of_outlook hlook hback hseen [header.handle]
  rcases hcases with ⟨-, heq⟩ | ⟨-, ⟨y, e, hfails, heq⟩ | ⟨y, touched, hforgot, heq⟩⟩
  · rw [heq]
    exact classify_of_outlook hlook hchild hseen header record
  · rw [heq]
    rwa [hfails] at hforgotten
  · rw [heq]
    rw [hforgot] at hforgotten
    have htouched : p (y.touch touched.toList) := hlook (by rfl) hforgotten
    exact classify_of_outlook hlook hchild htouched header record

theorem receive_of_outlook (hx : p x) (cycle : CycleId) (answer : Except RequestError Bytes) :
    p (x.receive cycle answer).1 := by
  obtain ⟨y, result, hreceive⟩ : ∃ y result, x.receive cycle answer = (y, result) := ⟨_, _, rfl⟩
  rw [hreceive]
  rcases receive_cases hreceive with ⟨rfl, -⟩ | ⟨c, handle, -, -, -, hcases⟩
  · exact hlook (by rfl) hx
  have hanswered : p (x.answered c) := hlook (by rfl) hx
  rcases hcases with ⟨e, -, rfl, -⟩ | ⟨record, next, -, hcases⟩
  · exact hlook (by rfl) hanswered
  have himported := importRecord_of_outlook hlook hchild hback hanswered record
  rcases hcases with ⟨z, e, himport, rfl, -⟩ | ⟨z, himport, hadvance⟩
  all_goals rw [himport] at himported
  · exact hlook (by rfl) himported
  · rcases advance_cases hadvance with ⟨-, rfl, -⟩ | ⟨d, -, ⟨rfl, -⟩ | ⟨rfl, -⟩ | ⟨rfl, -⟩⟩
    all_goals exact hlook (by rfl) himported

theorem after_of_outlook (hx : p x) (call : Call) : p (x.after call) := by
  cases call with
  | resync =>
    have hretracted : p (x.startCycle .chain [RecordHandle.terminator]).1.retractMerges.1 :=
      retractImports_induction (fun _ _ k _ y child => hback y k child) (hlook (by rfl) hx)
    exact hlook (by rfl) hretracted
  | fetch handles =>
    refine hlook ?_ hx
    simp only [after, beginFetch]
    split
    next => rfl
    next => split <;> rfl
  | request =>
    refine hlook ?_ hx
    simp only [after, nextRequest]
    split
    next => rfl
    next => split_ifs <;> [split <;> rfl; rfl]
  | receive cycle answer => exact receive_of_outlook hlook hchild hback hx cycle answer
  | forget handles => exact forget_of_outlook hlook hback hx handles
  | hostDown =>
    refine hlook ?_ hx
    rw [after, invalidateTermini_fst]
    rfl
  | link up => exact hlook (by rfl) hx

end calls

/-- Taking back the merge of a node of the host tells the path the node has had. -/
theorem unmerge_of_guest {k : RecordHandle} {child : Entity} {i : NodeId} {path : String}
    (hfind : x.tree.findExact? child = some i) (horigin : x.tree.origin? i = some .host)
    (hpath : x.path? i = some path) : ∃ repository, (x.unmerge k child).1 =
      { x with tree := (x.tree.detach i).1, repository
               notices := x.notices ++ [.detached path child] } := by
  simp only [Exchange.unmerge, hfind, horigin, hpath, if_true]
  exact ⟨_, rfl⟩

/-- From one state to another the inventory is told of all that changes in the tree, which stays grown
on the controller's own topology. -/
structure Recounts (base : Containment) (x y : Exchange) : Prop where
  names : y.names = x.names
  settings : y.settings = x.settings
  grows : Grows base y.tree
  told : ∃ book, Chronicle x.names x.settings.inventoryRoot x.tree book y.tree ∧
    y.notices = x.notices ++ book.map Episode.notice

namespace Recounts

theorem refl (hx : Grows base x.tree) : Recounts base x x :=
  ⟨rfl, rfl, hx, [], .nil, (List.append_nil _).symm⟩

theorem congr (h : Recounts base x y) (hz : z.outlook = y.outlook) : Recounts base x z := by
  obtain ⟨hnames, hsettings, htree, hnotices⟩ := outlook_eq_iff.mp hz
  exact ⟨hnames.trans h.names, hsettings.trans h.settings, htree ▸ h.grows, by
    rw [htree, hnotices]
    exact h.told⟩

/-- One more change that is told. -/
theorem tell {s : Episode} {tree : Containment} {notices : List InventoryNotice}
    {repository : Repository} (h : Recounts base x y)
    (hs : s.Faithful y.names y.settings.inventoryRoot) (hbefore : s.before = y.tree)
    (hafter : s.after = tree) (hnotices : notices = y.notices ++ [s.notice])
    (hgrows : Grows base tree) : Recounts base x { y with tree, notices, repository } := by
  obtain ⟨book, hbook, htold⟩ := h.told
  refine ⟨h.names, h.settings, hgrows, book ++ [s], ?_, ?_⟩
  · rw [h.names, h.settings] at hs
    exact hafter ▸ (hbefore ▸ hbook : Chronicle _ _ _ book s.before).snoc hs
  · rw [hnotices, htold, List.map_append, List.append_assoc]
    rfl

theorem mergeChild (h : Recounts base x y) (node : NodeId) (parent : Entity) (kind : UInt8)
    (child : Entity) : Recounts base x (y.mergeChild node parent kind child).1 := by
  apply mergeChild_induction (p := Recounts base x) h
  · intro tree placement hattach
    obtain ⟨above, habove, ⟨_, _, -, -, -, rfl, rfl⟩ | ⟨-, heq, rfl⟩⟩ := attach_eq_ok hattach
    · exact h
    · have hnew : (y.tree.under node _ child .host).node? y.tree.issued = some _ :=
        node?_under_issued h.grows.forest habove
      obtain ⟨path, hpath⟩ := (h.grows.forest.under habove).exists_path y.names
        y.settings.inventoryRoot hnew
      have hs := Episode.faithful_under h.grows.forest habove hpath
      refine h.tell hs rfl heq.symm ?_ (h.grows.attach hattach)
      simp only [Exchange.path?, heq, hpath, Option.map_some, Option.toList_some]
  · intro tree placement s k changed _ hgrown
    exact hgrown.congr rfl
  · intro z k hz
    exact hz.congr rfl

theorem unmerge (hbase : base.Forest) (hown : base.Own) (h : Recounts base x y) (k : RecordHandle)
    (child : Entity) : Recounts base x (y.unmerge k child).1 := by
  rcases y.unmerge_cases k child with
    ⟨-, heq⟩ | ⟨i, -, -, hfind, horigin, -, -⟩ | ⟨i, -, -, ⟨-, heq⟩ | ⟨entry, -, heq⟩⟩
  · rwa [heq]
  · obtain ⟨n, hn, rfl⟩ := findExact?_eq_some hfind
    have hhost : n.origin = .host := by simpa [origin?, hn] using horigin
    have hle : base.issued ≤ i := (h.grows.origin_eq_host hown hn).mp hhost
    obtain ⟨path, hpath⟩ := h.grows.forest.exists_path y.names y.settings.inventoryRoot hn
    have hs := Episode.faithful_detach h.grows.forest hn (fun {j m} hunder hm =>
      (h.grows.guest hm (Nat.le_trans hle (hunder.le h.grows.forest))).1) hpath
    obtain ⟨repository, heq⟩ := unmerge_of_guest (k := k) hfind horigin hpath
    rw [heq]
    exact h.tell hs rfl rfl rfl (h.grows.detach hbase hn hle)
  · rwa [heq]
  · rw [heq]
    split
    next => exact h
    next => exact h.congr rfl

/-- Every call tells what it changes. -/
theorem after (hbase : base.Forest) (hown : base.Own) (h : Recounts base x y) (call : Call) :
    Recounts base x (y.after call) :=
  after_of_outlook (p := Recounts base x) (fun hz hy => hy.congr hz)
    (fun _ node parent kind child hy => hy.mergeChild node parent kind child)
    (fun _ k child hy => hy.unmerge hbase hown k child) h call

theorem afterAll (hbase : base.Forest) (hown : base.Own) (h : Recounts base x y) (calls : List Call) :
    Recounts base x (y.afterAll calls) :=
  afterAll_induction (p := Recounts base x) (fun _ call hy (_ : True) => hy.after hbase hown call)
    (fun _ _ => trivial) h

end Recounts

/-- Whatever is asked of the exchange, the inventory has been told just of the nodes of the host that
came into the tree and of those that left it: of each once, when it happened, and under one path. -/
theorem inventory_told_of_every_change (settings : ExchangeSettings) (names : EntityNames)
    (r : Repository) {t : Containment} (ht : t.Forest) (hown : t.Own) (calls later : List Call) :
    let x := (start settings names r t).afterAll calls
    let y := x.afterAll later
    ∃ front back : List Episode,
      x.notices = front.map Episode.notice ∧ y.notices = (front ++ back).map Episode.notice ∧
      Chronicle names settings.inventoryRoot t front x.tree ∧
      Chronicle names settings.inventoryRoot x.tree back y.tree ∧
      Balanced t (front ++ back) y.tree ∧
      ∀ i n, y.tree.node? i = some n → (n.origin = .host ↔ t.issued ≤ i) := by
  intro x y
  have hstart : Grows t (start settings names r t).tree := .refl ht
  have hx : Recounts t (start settings names r t) x :=
    (Recounts.refl hstart).afterAll ht hown calls
  have hy : Recounts t x y := (Recounts.refl hx.grows).afterAll ht hown later
  obtain ⟨front, hfront, htold⟩ := hx.told
  obtain ⟨back, hback, htold'⟩ := hy.told
  have hnotices : x.notices = front.map Episode.notice := htold.trans (List.nil_append _)
  have hback : Chronicle names settings.inventoryRoot x.tree back y.tree := by
    rw [hx.names, hx.settings] at hback
    exact hback
  refine ⟨front, back, hnotices, ?_, hfront, hback, ?_, fun i n => hy.grows.origin_eq_host hown⟩
  · rw [htold', hnotices, List.map_append]
  · exact (hfront.append hback).balanced ht hown hy.grows

/-- A card comes into the chassis and leaves it when the next resync begins. -/
theorem inventory_told_of_every_change_card :
    let t := bareChassis
    let calls : List Call := [.resync, .request, .receive 0 (.ok (chassisListing 1 (cards 1)))]
    let x := (start .standard ⟨[]⟩ (.empty .localDefault .hostDefault) t).afterAll calls
    let y := x.afterAll [.resync]
    let path := "/xyz/openbmc_project/inventory/system1/entity680"
    t.Forest ∧ t.Own ∧ ∃ front back : List Episode,
      front.map Episode.notice = [.attached path ⟨68, 0, 1⟩] ∧
      (front ++ back).map Episode.notice = [.attached path ⟨68, 0, 1⟩, .detached path ⟨68, 0, 1⟩] ∧
      Chronicle ⟨[]⟩ ExchangeSettings.standard.inventoryRoot t front x.tree ∧
      Balanced t (front ++ back) y.tree := by
  intro t calls x y path
  have hforest := bareChassis_planted.forest
  have hown : t.Own := bareChassis_planted.ownNodes
  obtain ⟨front, back, hx, hy, hfront, -, hbalanced, -⟩ := inventory_told_of_every_change .standard
    ⟨[]⟩ (.empty .localDefault .hostDefault) hforest hown calls [.resync]
  have hfirst : x.notices = [.attached path ⟨68, 0, 1⟩] := by decide +kernel
  have hboth : y.notices = [.attached path ⟨68, 0, 1⟩, .detached path ⟨68, 0, 1⟩] := by decide +kernel
  exact ⟨hforest, hown, front, back, hx.symm.trans hfirst, hy.symm.trans hboth, hfront, hbalanced⟩

end DescriptorExchange.Exchange

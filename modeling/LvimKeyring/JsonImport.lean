import LvimKeyring.PanelSync

/-!
The import of a JSON file.

The file maps names to values, or to values with metadata. An import leaves every entry of the
wallet as it is, and adds those of the file that the agent accepts: whatever order the requests are
carried out in, what others read meanwhile, and however the wallet is locked and unlocked.
-/

namespace LvimKeyring.JsonImport

open Rpc Params Crypto Vault Wallet WalletRefines Transition Result
open Server (Env Reply Op optField prepare prepareSet decoded isBlank touches)
open Atomicity (mutators)
open PanelSync (Void answered_handle)

/-! ### The file -/

/-- The `meta` table of an entry: what the file has under three keys, whatever it is. -/
structure Info where
  user : Option Json
  url : Option Json
  notes : Option Json

def Info.json (i : Info) : Json :=
  .obj (optField "notes" id i.notes ++ optField "url" id i.url ++ optField "user" id i.user)

/-- An entry to be stored. An element of an array has its number for a name. -/
structure Item where
  name : Json
  value : String
  info : Option Info

def itemOf (name : Json) : Json → Option Item
  | .str value => some ⟨name, value, none⟩
  | .obj fields =>
    match fields.lookup "value" with
    | some (.str value) =>
      some ⟨name, value, some ⟨fields.lookup "user", fields.lookup "url", fields.lookup "notes"⟩⟩
    | _ => none
  | _ => none

/-- `parse_json`, of what the text is decoded to: the fields of an object come in the order of
`pairs`, and a `null` is no table. -/
def parseJson : Option Json → Except String (List Item)
  | some (.obj fields) => .ok (fields.filterMap fun field => itemOf (.str field.1) field.2)
  | some (.arr elements) =>
    .ok (elements.zipIdx.filterMap fun element => itemOf (.num (element.2 + 1 : ℕ)) element.1)
  | _ => .error "not valid JSON"

/-- The parameters of `M.set`. -/
def Item.params (it : Item) : Json :=
  .obj (optField "meta" Info.json it.info ++ [("name", it.name), ("value", .str it.value)])

/-- A key of the table `present` can be the name. -/
def Item.label (it : Item) : Option String :=
  match it.name with
  | .str name => some name
  | _ => none

def Item.isIn (present : List String) (it : Item) : Bool := it.label.any (· ∈ present)

/-! ### The import -/

inductive Level
  | info
  | warn
  deriving DecidableEq

structure Import (σ : Type) where
  agent : σ
  total : ℕ
  /-- Sent, and not carried out. -/
  waiting : List Item
  /-- With the time it was stored at. -/
  stored : List (Item × ℕ)
  skipped : List Item
  failed : List (Item × Err)

/-- The names that are there have been listed, and the rest has been sent. -/
def started {σ : Type} (agent : σ) (items : List Item) (present : List String) : Import σ where
  agent := agent
  total := items.length
  waiting := items.filter fun it => !it.isIn present
  stored := []
  skipped := items.filter fun it => it.isIn present
  failed := []

/-- What the user is told, once every entry has been counted. -/
def Import.report {σ : Type} (x : Import σ) : Option (Level × String) :=
  if x.stored.length + x.skipped.length + x.failed.length ≠ x.total then none
  else
    let count (n : ℕ) (what : String) : List String := if 0 < n then [toString n ++ what] else []
    let extra := count x.skipped.length " skipped" ++ count x.failed.length " failed"
    some (if extra = [] then .info else .warn,
      "lvim-keyring: imported " ++ toString x.stored.length ++ "/" ++ toString x.total ++
        " secret(s)" ++
        if extra = [] then "" else " (" ++ String.intercalate ", " extra ++ ")")

inductive Action
  | set (i : ℕ) (env : Env)
  | other (ev : Event)

variable {σ : Type}

/-- A request has been answered. -/
def Import.answered (x : Import σ) (it : Item) (now : ℕ) : Except Err Reply → Import σ
  | .ok _ => { x with stored := x.stored ++ [(it, now)] }
  | .error e => { x with failed := x.failed ++ [(it, e)] }

def step (M : σ → Event → σ × Option (Except Err Reply)) (x : Import σ) :
    Action → Option (Import σ)
  | .set i env =>
    (x.waiting[i]?).bind fun it =>
      let r := M x.agent (.request env "secret.set" it.params)
      r.2.map fun result =>
        ({ x with agent := r.1, waiting := x.waiting.eraseIdx i } : Import σ).answered it
        env.now result
  | .other ev => some { x with agent := (M x.agent ev).1 }

def Action.faultless : Action → Prop
  | .set _ env => env.io = .none
  | .other ev => ev.faultless

/-- Nobody else sends a change. -/
def Action.alone : Action → Prop
  | .other (.request _ method _) => method ∉ mutators
  | _ => True

/-! ### What the agent accepts -/

/-- A text, or nothing. -/
def readable : Option Json → Bool
  | none | some .null | some (.str _) => true
  | _ => false

def textOf : Option Json → Option String
  | some (.str s) => some s
  | _ => none

def Info.fits (i : Info) : Bool := readable i.user && readable i.url && readable i.notes

/-- The name is a text that is not blank, and what the metadata has are texts. -/
def Item.fits (it : Item) : Bool :=
  it.label.any (fun name => !isBlank name) && it.info.all Info.fits

/-- A text of the metadata; an empty one counts as none. -/
def Item.text (it : Item) (field : Info → Option Json) : Option String :=
  (it.info.bind fun i => textOf (field i)).filter (· ≠ "")

/-- The entry that is stored for an item. -/
def Item.entry (it : Item) (now : ℕ) : Entry :=
  ⟨it.value, it.text (·.user), it.text (·.url), it.text (·.notes), [], false, now, now⟩

/-- The metadata as the agent reads it. -/
def Info.metaIn (i : Info) : MetaIn := ⟨textOf i.user, textOf i.url, textOf i.notes, none, none⟩

lemma amend_fresh (it : Item) (now : ℕ) :
    amend (fresh it.value now) (it.info.map Info.metaIn) = it.entry now := by
  have hkeep : ∀ o : Option String, keep none o = o.filter (· ≠ "") := by
    intro o
    cases o with
    | none => rfl
    | some t =>
      by_cases ht : t = "" <;> simp [keep, Option.filter, ht]
  obtain ⟨name, value, info⟩ := it
  cases info with
  | none => rfl
  | some i => simp [amend, fresh, Item.entry, Item.text, Info.metaIn, hkeep]

lemma readable_cases {o : Option Json} (h : readable o = true) :
    o = none ∨ o = some .null ∨ ∃ s, o = some (.str s) := by
  rcases o with _ | (_ | _ | _ | _ | s | _ | _) <;> simp [readable] at h ⊢

lemma metaIn_json {i : Info} (h : i.fits = true) : MetaIn.fromValue i.json = .ok i.metaIn := by
  obtain ⟨user, url, notes⟩ := i
  simp only [Info.fits, Bool.and_eq_true] at h
  obtain ⟨⟨huser, hurl⟩, hnotes⟩ := h
  rcases readable_cases huser with rfl | rfl | ⟨s, rfl⟩ <;>
    rcases readable_cases hurl with rfl | rfl | ⟨t, rfl⟩ <;>
      rcases readable_cases hnotes with rfl | rfl | ⟨u, rfl⟩ <;> rfl

lemma readable_of_check {name : String} {j : Json}
    (h : (Field.of name (decodeOption decodeString) .option).check j = .ok ()) :
    readable (some j) = true := by
  cases j with
  | null | str => rfl
  | bool | num | float | arr | obj => cases h

lemma fits_of_metaIn {i : Info} {m : MetaIn} (h : MetaIn.fromValue i.json = .ok m) :
    i.fits = true := by
  simp only [MetaIn.fromValue, Info.json, visitStruct, bind_eq_ok] at h
  obtain ⟨present, hvisit, -⟩ := h
  have hchecks := Generating.visitMap_ok.mp ⟨present, hvisit⟩
  have huser : readable i.user = true := by
    cases hj : i.user with
    | none => rfl
    | some j => exact readable_of_check (hchecks ("user", j) (by simp [optField, hj]) _ rfl)
  have hurl : readable i.url = true := by
    cases hj : i.url with
    | none => rfl
    | some j => exact readable_of_check (hchecks ("url", j) (by simp [optField, hj]) _ rfl)
  have hnotes : readable i.notes = true := by
    cases hj : i.notes with
    | none => rfl
    | some j => exact readable_of_check (hchecks ("notes", j) (by simp [optField, hj]) _ rfl)
  simp [Info.fits, huser, hurl, hnotes]

lemma setParam_params {it : Item} {name : String} (hname : it.label = some name)
    (hinfo : it.info.all Info.fits = true) :
    SetParam.fromValue it.params = .ok ⟨name, some it.value, it.info.map Info.metaIn, true⟩ := by
  obtain ⟨label, value, info⟩ := it
  cases label with
  | str text =>
    obtain rfl : text = name := Option.some.inj hname
    cases info with
    | none => rfl
    | some i =>
      have hmeta : decodeOption MetaIn.fromValue i.json = .ok (some i.metaIn) := by
        change (MetaIn.fromValue i.json).map some = _
        rw [metaIn_json hinfo]
        rfl
      have hvisit : ∃ present, visitMap [.of "name" decodeString .required,
          .of "value" (decodeOption decodeString) .default,
          .of "meta" (decodeOption MetaIn.fromValue) .default, waitField]
          [("meta", i.json), ("name", .str text), ("value", .str value)] = .ok present := by
        refine Generating.visitMap_ok.mpr fun kv hkv f hf => ?_
        simp only [List.mem_cons, List.not_mem_nil, or_false] at hkv
        rcases hkv with rfl | rfl | rfl
        · cases hf
          simp only [Field.of, hmeta]
          rfl
        · cases hf
          rfl
        · cases hf
          rfl
      obtain ⟨present, hpresent⟩ := hvisit
      have heq := Generating.visitMap_eq hpresent
      subst heq
      change (visitMap _ [("meta", i.json), ("name", .str text), ("value", .str value)] >>= _) = _
      rw [hpresent]
      simp only [bind_eq_ok, pure_eq_ok]
      exact ⟨_, rfl, text, rfl, some value, rfl, some i.metaIn, hmeta, true, rfl, rfl⟩
  | null | bool | num | float | arr | obj => cases hname

lemma fits_of_setParam {it : Item} {p : SetParam} (h : SetParam.fromValue it.params = .ok p) :
    it.label = some p.name ∧ it.info.all Info.fits = true := by
  simp only [SetParam.fromValue, Item.params, visitStruct, bind_eq_ok, pure_eq_ok] at h
  obtain ⟨present, hvisit, name, hname, value, -, info, hmeta, wait, -, rfl⟩ := h
  rw [Generating.visitMap_eq hvisit] at hname hmeta
  obtain ⟨label, text, details⟩ := it
  cases details with
  | none =>
    cases label with
    | str s =>
      cases hname
      exact ⟨rfl, rfl⟩
    | null | bool | num | float | arr | obj => cases hname
  | some i =>
    have hfits : i.fits = true := by
      cases hi : MetaIn.fromValue i.json with
      | ok m => exact fits_of_metaIn hi
      | error e =>
        have hnone : (MetaIn.fromValue i.json).map some = .ok info := hmeta
        rw [hi] at hnone
        cases hnone
    cases label with
    | str s =>
      cases hname
      exact ⟨rfl, hfits⟩
    | null | bool | num | float | arr | obj => cases hname

lemma prepare_params (random : ℕ → UInt8) (it : Item) :
    (it.fits = false ∧ ∃ e, prepare random "secret.set" it.params = .error e) ∨
      ∃ name, it.fits = true ∧ it.label = some name ∧ prepare random "secret.set" it.params =
        .ok (.session true (.set ⟨name, some it.value, it.info.map Info.metaIn, true⟩)) := by
  have hset : prepare random "secret.set" it.params = prepareSet it.params := rfl
  rw [hset, prepareSet]
  cases hdecode : SetParam.fromValue it.params with
  | error e =>
    refine .inl ⟨?_, .decode e, rfl⟩
    by_contra hfits
    simp only [Bool.not_eq_false, Item.fits, Bool.and_eq_true] at hfits
    obtain ⟨name, hname, -⟩ := (Option.any_eq_true _ _).mp hfits.1
    rw [setParam_params hname hfits.2] at hdecode
    cases hdecode
  | ok p =>
    obtain ⟨hname, hinfo⟩ := fits_of_setParam hdecode
    obtain ⟨name, hp⟩ : ∃ name, p.name = name := ⟨_, rfl⟩
    rw [hp] at hname
    rw [← hdecode, setParam_params hname hinfo]
    simp only [decoded, Except.mapError, ok_bind, Item.fits, hname, hinfo, Option.any_some,
      Bool.and_true]
    cases isBlank name with
    | true => exact .inl ⟨rfl, .emptyName, rfl⟩
    | false => exact .inr ⟨name, rfl, rfl, rfl⟩

/-! ### On the store -/

variable {T : Totp.Packages} {st : Settings} {env : Env} {a : Store} {it : Item}

/-- What becomes of an item whose name is free. -/
inductive Outcome (a : Store) (it : Item) (now : ℕ) : Store × Except Err Reply → Prop
  | refused {b : Store} (e : Err) (hsecrets : b.secrets = a.secrets)
    (hwhy : e = .locked ∨ it.fits = false) : Outcome a it now (b, .error e)
  | stored {b : Store} (reply : Reply) (name : String) (hfits : it.fits = true)
    (hname : it.label = some name) (hsecrets : b.secrets = a.secrets.insert name (it.entry now)) :
    Outcome a it now (b, .ok reply)

lemma outcome_handle (hfree : ∀ name, it.label = some name → a.secrets.lookup name = none) :
    Outcome a it env.now (a.handle T st env "secret.set" it.params) := by
  have htouched : touches "secret.set" = true := rfl
  simp only [Store.handle, htouched, if_true]
  rcases prepare_params env.random it with ⟨hfits, e, he⟩ | ⟨name, hfits, hname, hcall⟩
  · rw [he]
    exact .refused e rfl (.inr hfits)
  · simp only [hcall, Store.call, Store.session]
    cases a.locked with
    | true => exact .refused .locked rfl (.inl rfl)
    | false =>
      simp only [Secrets.apply, Secrets.set, hfree name hname, Except.map, amend_fresh]
      exact .stored .unit name hfits hname rfl

/-- What has been stored under a name. -/
def storedEntry (stored : List (Item × ℕ)) (name : String) : Option Entry :=
  (stored.find? fun s => s.1.label = some name).map fun s => s.1.entry s.2

/-- The map is the one there was, with what has been stored. Each item is in one place, and what the
agent has refused does not fit, or has come while the wallet was locked. -/
structure Inv (m : Secrets) (sent skipped : List Item) (x : Import (Settings × Store)) : Prop where
  void : Void x.agent.2
  lookup : ∀ name, x.agent.2.secrets.lookup name = (m.lookup name).or (storedEntry x.stored name)
  placed : (x.stored.map Prod.fst ++ x.failed.map Prod.fst ++ x.waiting).Perm sent
  skips : x.skipped = skipped
  total : x.total = sent.length + skipped.length
  stored : ∀ s ∈ x.stored, s.1.fits = true
  failed : ∀ f ∈ x.failed, f.2 = .locked ∨ f.1.fits = false

/-- Items with names of their own, none of which is taken. -/
structure Free (m : Secrets) (sent : List Item) : Prop where
  free : ∀ it ∈ sent, ∀ name, it.label = some name → m.lookup name = none
  names : (sent.filterMap Item.label).Nodup

variable {m : Secrets} {sent skipped : List Item} {x : Import (Settings × Store)}

lemma Inv.free_waiting (h : Inv m sent skipped x) (hfree : Free m sent) (hit : it ∈ x.waiting)
    {name : String} (hname : it.label = some name) :
    m.lookup name = none ∧ storedEntry x.stored name = none := by
  refine ⟨hfree.free it (h.placed.subset (List.mem_append_right _ hit)) name hname, ?_⟩
  refine Option.map_eq_none_iff.mpr (List.find?_eq_none.mpr fun s hs hlabel => ?_)
  have hnames := (h.placed.filterMap Item.label).nodup_iff.mpr hfree.names
  rw [List.filterMap_append, List.filterMap_append, List.append_assoc] at hnames
  have hdisjoint := (List.nodup_append.mp hnames).2.2
  refine hdisjoint name ?_ name ?_ rfl
  · exact List.mem_filterMap.mpr ⟨s.1, List.mem_map_of_mem hs, of_decide_eq_true hlabel⟩
  · exact List.mem_append_right _ (List.mem_filterMap.mpr ⟨it, hit, hname⟩)

lemma storedEntry_append (stored : List (Item × ℕ)) (s : Item × ℕ) (name : String) :
    storedEntry (stored ++ [s]) name = (storedEntry stored name).or
      (if s.1.label = some name then some (s.1.entry s.2) else none) := by
  unfold storedEntry
  rw [List.find?_append, List.find?_singleton]
  cases stored.find? (fun s => s.1.label = some name) with
  | some t => rfl
  | none => by_cases hs : s.1.label = some name <;> simp [hs]

lemma perm_eraseIdx {i : ℕ} (h : x.waiting[i]? = some it) :
    (it :: x.waiting.eraseIdx i).Perm x.waiting := by
  obtain ⟨hi, rfl⟩ := List.getElem?_eq_some_iff.mp h
  exact (List.getElem_cons_eraseIdx_perm hi)

/-- An item is carried out. -/
lemma Inv.answered (h : Inv m sent skipped x) (hfree : Free m sent) {i now : ℕ}
    (hit : x.waiting[i]? = some it) {e : Settings × Store} {result : Except Err Reply}
    (hvoid : Void e.2) (hout : Outcome x.agent.2 it now (e.2, result)) :
    Inv m sent skipped
      (({ x with agent := e, waiting := x.waiting.eraseIdx i } : Import (Settings × Store)).answered
        it now result) := by
  have hperm := perm_eraseIdx hit
  obtain ⟨st, b⟩ := e
  cases hout with
  | refused e hsecrets hwhy =>
    refine ⟨hvoid, fun name => ?_, ?_, h.skips, h.total, h.stored, fun f hf => ?_⟩
    · have hlookup : b.secrets.lookup name = (m.lookup name).or (storedEntry x.stored name) := by
        rw [← h.lookup name]
        exact congrArg (Finmap.lookup name) hsecrets
      exact hlookup
    · refine List.Perm.trans ?_ h.placed
      simp only [Import.answered, List.map_append, List.map_cons, List.map_nil, List.append_assoc,
        List.singleton_append]
      exact (hperm.append_left _).append_left _
    · rcases List.mem_append.mp hf with hold | hnew
      · exact h.failed f hold
      · rw [List.mem_singleton.mp hnew]
        exact hwhy
  | stored reply name hfits hname hsecrets =>
    obtain ⟨hold, hnone⟩ := h.free_waiting hfree (List.mem_of_getElem? hit) hname
    refine ⟨hvoid, fun n => ?_, ?_, h.skips, h.total, fun s hs => ?_, h.failed⟩
    · have hlookup :
          b.secrets.lookup n = (m.lookup n).or (storedEntry (x.stored ++ [(it, now)]) n) := by
        rw [hsecrets, storedEntry_append]
        by_cases hn : n = name
        · subst hn
          rw [Finmap.lookup_insert, hold, hnone, if_pos hname]
          rfl
        · have hother : it.label ≠ some n := fun heq => hn (Option.some.inj (heq.symm.trans hname))
          rw [Finmap.lookup_insert_of_ne _ hn, h.lookup n, if_neg hother, Option.or_none]
      exact hlookup
    · refine List.Perm.trans ?_ h.placed
      simp only [Import.answered, List.map_append, List.map_cons, List.map_nil, List.append_assoc,
        List.singleton_append]
      refine List.Perm.append_left _ ?_
      exact List.perm_middle.symm.trans (hperm.append_left _)
    · rcases List.mem_append.mp hs with hold | hnew
      · exact h.stored s hold
      · rw [List.mem_singleton.mp hnew]
        exact hfits

/-! ### Every run -/

/-- The same import, with another agent. -/
def Import.over {σ τ : Type} (x : Import σ) (agent : τ) : Import τ :=
  ⟨agent, x.total, x.waiting, x.stored, x.skipped, x.failed⟩

variable {Key : Type} {L : Server.Packages Key}

lemma inv_step (hfree : Free m sent) (h : Inv m sent skipped x) {action : Action}
    (ha : action.alone)
    {y : Import (Settings × Store)} (hstep : step (store L) x action = some y) :
    Inv m sent skipped y := by
  cases action with
  | set i env =>
    obtain ⟨it, hit, hstep⟩ := Option.bind_eq_some_iff.mp hstep
    cases hstep
    have hvoid := (answered_handle L.totp x.agent.1 env h.void "secret.set" it.params).void
    refine h.answered hfree hit hvoid (outcome_handle fun name hname => ?_)
    obtain ⟨hold, hnone⟩ := h.free_waiting hfree (List.mem_of_getElem? hit) hname
    rw [h.lookup name, hold, hnone]
    rfl
  | other ev =>
    cases hstep
    have halone : (PanelSync.Action.other ev).alone := by cases ev <;> exact ha
    refine ⟨PanelSync.void_step L h.void ev, fun name => ?_, h.placed, h.skips, h.total, h.stored,
      h.failed⟩
    rw [PanelSync.secrets_other L h.void halone]
    exact h.lookup name

lemma step_store (hL : L.toLibrary.Ideal) {x y : Import (Server.Config × Server.World Key)}
    {e : Settings × Store} (hrelated : Related L x.agent e) {action : Action}
    (ha : action.faultless)
    (hstep : step (agent L) x action = some y) :
    ∃ e', Related L y.agent e' ∧ step (store L) (x.over e) action = some (y.over e') := by
  cases action with
  | set i env =>
    obtain ⟨it, hit, hstep⟩ := Option.bind_eq_some_iff.mp hstep
    obtain ⟨result, hresult, rfl⟩ := Option.map_eq_some_iff.mp hstep
    obtain ⟨hnext, hans⟩ :=
      related_step hL x.agent e (.request env "secret.set" it.params) hrelated ha
    refine ⟨(store L e (.request env "secret.set" it.params)).1, ?_, ?_⟩
    · cases result <;> exact hnext
    · have hwaiting : (x.over e).waiting[i]? = some it := hit
      have hstored :
          (store L (x.over e).agent (.request env "secret.set" it.params)).2 = some result :=
        hans.symm.trans hresult
      simp only [step, hwaiting, Option.bind_some, hstored, Option.map_some]
      cases result <;> rfl
  | other ev =>
    cases hstep
    exact ⟨_, (related_step hL x.agent e ev hrelated ha).1, rfl⟩

lemma inv_related (hL : L.toLibrary.Ideal) (hfree : Free m sent)
    {x y : Import (Server.Config × Server.World Key)} {action : Action}
    (h : ∃ e, Related L x.agent e ∧ Inv m sent skipped (x.over e))
    (ha : action.faultless ∧ action.alone) (hstep : step (agent L) x action = some y) :
    ∃ e, Related L y.agent e ∧ Inv m sent skipped (y.over e) := by
  obtain ⟨e, hrelated, hinv⟩ := h
  obtain ⟨e', hnext, hstep'⟩ := step_store hL hrelated ha.1 hstep
  exact ⟨e', hnext, inv_step hfree hinv ha.2 hstep'⟩

/-! ### From the file to the vault -/

/-- A key is in an object once. -/
def Keyed : Json → Prop
  | .obj fields => (fields.map Prod.fst).Nodup
  | _ => True

lemma itemOf_name {name j : Json} (h : itemOf name j = some it) : it.name = name := by
  unfold itemOf at h
  split at h
  · cases h
    rfl
  · split at h <;> cases h
    rfl
  · cases h

lemma labels_sublist (fields : List (String × Json)) :
    ((fields.filterMap fun field => itemOf (.str field.1) field.2).filterMap Item.label).Sublist
      (fields.map Prod.fst) := by
  induction fields with
  | nil => exact List.Sublist.refl _
  | cons field fields ih =>
    rw [List.filterMap_cons, List.map_cons]
    cases hit : itemOf (.str field.1) field.2 with
    | none => exact ih.cons _
    | some it =>
      have hlabel : it.label = some field.1 := by rw [Item.label, itemOf_name hit]
      simp only [List.filterMap_cons, hlabel]
      exact ih.cons_cons _

lemma labels_nodup {j : Json} (hkeyed : Keyed j) {items : List Item}
    (h : parseJson (some j) = .ok items) : (items.filterMap Item.label).Nodup := by
  cases j with
  | obj fields =>
    cases h
    exact (labels_sublist fields).nodup hkeyed
  | arr elements =>
    cases h
    have hnone : ∀ it ∈ elements.zipIdx.filterMap fun element =>
        itemOf (.num (element.2 + 1 : ℕ)) element.1, it.label = none := by
      intro it hit
      obtain ⟨element, -, hit⟩ := List.mem_filterMap.mp hit
      rw [Item.label, itemOf_name hit]
    rw [List.filterMap_eq_nil_iff.mpr hnone]
    exact List.nodup_nil
  | null | bool | num | float | str => cases h

/-- What has come of an import, between two states of the vault. -/
structure Brought (old new : Body) (items : List Item) (x : Import σ) : Prop where
  entries : ∀ name, new.entries[name]? = (old.entries[name]?).or (storedEntry x.stored name)
  placed : (x.stored.map Prod.fst ++ x.failed.map Prod.fst ++ x.waiting ++ x.skipped).Perm items
  stored : ∀ s ∈ x.stored, s.1.fits = true
  skipped : ∀ it ∈ x.skipped, ∃ name, it.label = some name ∧ (old.entries[name]?).isSome = true
  failed : ∀ f ∈ x.failed, f.2 = .locked ∨ f.1.fits = false
  reported : x.report.isSome = x.waiting.isEmpty

lemma mem_listing (m : Secrets) (name : String) :
    name ∈ (Secrets.listing m).map (·.name) ↔ (m.lookup name).isSome = true := by
  simp only [Secrets.listing, List.mem_map, List.mem_filterMap, Option.map_eq_some_iff]
  constructor
  · rintro ⟨summary, ⟨n, -, e, he, rfl⟩, rfl⟩
    exact Option.isSome_iff_exists.mpr ⟨e, he⟩
  · intro h
    obtain ⟨e, he⟩ := Option.isSome_iff_exists.mp h
    have hmem : name ∈ m.keys.sort :=
      (Finset.mem_sort _).mpr (Finmap.mem_keys.mpr (Finmap.mem_iff.mpr ⟨e, he⟩))
    exact ⟨_, ⟨name, hmem, e, he, rfl⟩, rfl⟩

lemma entries_of_related (hL : L.toLibrary.Ideal) {d : Server.Config × Server.World Key}
    {e : Settings × Store} (h : Related L d e) {s : Session Key}
    (hs : Holds L.toLibrary d.2.fs d.1.vaultPath s) (name : String) :
    s.body.entries[name]? = e.2.secrets.lookup name := by
  cases hp : e.2.password with
  | none =>
    have hfile := hs.fileExists
    rw [fileExists, (h.2.absent hp).1] at hfile
    cases hfile
  | some pw =>
    obtain ⟨kept, hkept, -⟩ := h.2.sealed pw hp
    obtain rfl := hs.unique hL hkept.holds
    exact (hkept.agrees name).symm

lemma Inv.reported (h : Inv m sent skipped x) : x.report.isSome = x.waiting.isEmpty := by
  have hlength := h.placed.length_eq
  simp only [List.length_append, List.length_map] at hlength
  have htotal := h.total
  rw [← h.skips] at htotal
  cases hwaiting : x.waiting with
  | nil =>
    rw [hwaiting, List.length_nil] at hlength
    rw [Import.report, if_neg (by omega)]
    rfl
  | cons it waiting =>
    rw [hwaiting, List.length_cons] at hlength
    rw [Import.report, if_pos (by omega)]
    rfl

/-- A vault with one entry. -/
def stocked : List Event :=
  [.request Sample.env "vault.create" (.obj [("password", .str "pw")]),
    .request Sample.env "secret.set" (.obj [("name", .str "a"), ("value", .str "x")])]

/-- The daemon with that vault, and its answer to the list request. -/
def listing : (Server.Config × Server.World Sample.Key) × Option (Except Err Reply) :=
  agent Sample.packages (Machine.final (agent Sample.packages)
    (Sample.config, ⟨fun _ => none, Server.Inner.new Sample.Key 0⟩) stocked)
    (.request Sample.env "secret.list" (.obj []))

/-- One entry that is there, one that is not, one with a number for its notes, one without a name,
and something that is no entry. -/
def file : Json :=
  .obj [("a", .str "y"), ("b", .obj [("value", .str "z"), ("user", .str "u"), ("url", .null)]),
    ("c", .obj [("value", .str "v"), ("notes", .num 3)]), ("", .str "w"), ("d", .num 7)]

def filed : List Item :=
  [⟨.str "a", "y", none⟩, ⟨.str "b", "z", some ⟨some (.str "u"), some .null, none⟩⟩,
    ⟨.str "c", "v", some ⟨none, none, some (.num 3)⟩⟩, ⟨.str "", "w", none⟩]

/-- The entries are carried out in another order, and the wallet is locked for a while. -/
def importing : List Action :=
  [.set 1 Sample.env, .other (.request Sample.env "vault.lock" (.obj [])), .set 1 Sample.env,
    .other (.request Sample.env "vault.unlock" (.obj [("password", .str "pw")])), .set 0 Sample.env]

end LvimKeyring.JsonImport

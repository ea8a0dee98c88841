import LvimKeyring.Generating
import LvimKeyring.WalletRefines

/-!
Scoped views of the wallet.

A consumer uses bare names under a namespace of its own. When no name is in both of two
namespaces, what is done through the one is seen nowhere in the answers of the other; the names
meet exactly when one prefix begins with the other. Others may use composed names of both, as long
as they do not carry an entry over the edge of a namespace: a rename is the one operation whose
effect on a name depends on another name.
-/

namespace LvimKeyring.Scopes

open Rpc Params Vault Server Wallet WalletRefines Machine Result

/-! ### The view -/

/-- A call that a view offers. -/
inductive Use
  | get (name : String)
  | getSync (name : String)
  | set (name : String) (value : Option String) (info : Option Json)
  | delete (name : String)
  | rename (src dst : String)

/-- What the call sends, the fields as a parsed object has them. -/
def Use.request : Use → String × Json
  | .get name => ("secret.get", .obj [("name", .str name)])
  | .getSync name => ("secret.get", .obj [("name", .str name), ("wait", .bool false)])
  | .set name value info =>
    ("secret.set", .obj ((info.map fun j => ("meta", j)).toList ++
      ("name", .str name) :: (value.map fun v => ("value", .str v)).toList))
  | .delete name => ("secret.delete", .obj [("name", .str name)])
  | .rename src dst => ("secret.rename", .obj [("from", .str src), ("to", .str dst)])

def key (ns name : String) : String := ns ++ "/" ++ name

/-- `M.scope`: a call with a bare name, as a call with the composed one. -/
def scope (ns : String) : Use → Use
  | .get name => .get (key ns name)
  | .getSync name => .getSync (key ns name)
  | .set name value info => .set (key ns name) value info
  | .delete name => .delete (key ns name)
  | .rename src dst => .rename (key ns src) (key ns dst)

/-- The names of a namespace. -/
def Under (ns name : String) : Prop := (ns ++ "/").toList <+: name.toList

lemma under_iff {ns name : String} : Under ns name ↔ ∃ bare, name = key ns bare := by
  constructor
  · rintro ⟨rest, hrest⟩
    refine ⟨String.ofList rest, ?_⟩
    apply String.toList_injective
    simp [key, ← hrest]
  · rintro ⟨bare, rfl⟩
    exact ⟨bare.toList, by simp [key]⟩

lemma under_key (ns bare : String) : Under ns (key ns bare) := under_iff.mpr ⟨bare, rfl⟩

/-- Neither prefix begins with the other. -/
def Apart (a b : String) : Prop :=
  ¬ (a ++ "/").toList <+: (b ++ "/").toList ∧ ¬ (b ++ "/").toList <+: (a ++ "/").toList

instance (a b : String) : Decidable (Apart a b) := inferInstanceAs (Decidable (_ ∧ _))

lemma apart_iff {a b : String} : Apart a b ↔ ∀ name, Under a name → ¬ Under b name := by
  constructor
  · rintro ⟨hab, hba⟩ name ha hb
    rcases le_total (a ++ "/").toList.length (b ++ "/").toList.length with hle | hle
    · exact hab (List.prefix_of_prefix_length_le ha hb hle)
    · exact hba (List.prefix_of_prefix_length_le hb ha hle)
  · intro h
    refine ⟨fun hab => ?_, fun hba => ?_⟩
    · refine h (b ++ "/") ?_ ?_
      · exact hab
      · exact List.prefix_rfl
    · refine h (a ++ "/") ?_ ?_
      · exact List.prefix_rfl
      · exact hba

/-- Two parents that are single segments never meet. -/
theorem apart_of_segments {a b : String} (ha : '/' ∉ a.toList) (hb : '/' ∉ b.toList) (hne : a ≠ b) :
    Apart a b := by
  have hstop : ∀ s t : String, '/' ∉ s.toList → (s ++ "/").toList <+: (t ++ "/").toList →
      '/' ∉ t.toList → s = t := by
    intro s t hs hst ht
    obtain ⟨rest, hrest⟩ := hst
    have hslash : "/".toList = ['/'] := rfl
    simp only [String.toList_append, hslash, List.append_assoc, List.singleton_append] at hrest
    apply String.toList_injective
    have htake := congrArg (List.takeWhile (· != '/')) hrest
    have hall : ∀ l : List Char, '/' ∉ l → ∀ c ∈ l, (c != '/') = true := by
      intro l hl c hc
      simp only [bne_iff_ne]
      rintro rfl
      exact hl hc
    rw [List.takeWhile_append_of_pos (hall _ hs), List.takeWhile_append_of_pos (hall _ ht)] at htake
    simpa using htake
  exact ⟨fun h => hne (hstop a b ha h hb), fun h => hne (hstop b a hb h ha).symm⟩

-- The names of `x/y` are names of `x` as well.
example : Apart "forge" "db" ∧ Apart "forge" "forge2" ∧ ¬ Apart "x" "x/y" := by decide

/-! ### What a call of a view comes to -/

/-- The operation is on entries by their names, and the names are all like this. -/
def On (P : String → Prop) : Op → Prop
  | .get name | .delete name | .generate name _ | .totp name => P name
  | .set p => P p.name
  | .rename src dst => P src ∧ P dst
  | .list => False

lemma On.mono {P Q : String → Prop} {op : Op} (h : On P op) (hPQ : ∀ name, P name → Q name) :
    On Q op := by
  cases op with
  | rename src dst => exact ⟨hPQ src h.1, hPQ dst h.2⟩
  | list => exact h
  | _ => exact hPQ _ h

/-- What a view sends is refused as it stands, or is an operation on its own names. -/
lemma prepare_scope {random : ℕ → UInt8} {ns : String} {u : Use} {call : Call}
    (h : prepare random (scope ns u).request.1 (scope ns u).request.2 = .ok call) :
    ∃ wait op, call = .session wait op ∧ On (Under ns) op := by
  cases u with
  | get name =>
    cases h
    exact ⟨_, _, rfl, under_key ns name⟩
  | getSync name =>
    cases h
    exact ⟨_, _, rfl, under_key ns name⟩
  | delete name =>
    cases h
    exact ⟨_, _, rfl, under_key ns name⟩
  | rename src dst =>
    have hp : RenameParam.fromValue (scope ns (.rename src dst)).request.2
        = .ok ⟨key ns src, key ns dst, true⟩ := rfl
    simp only [scope, Use.request, prepare, prepareRename, decoded] at h hp
    rw [hp] at h
    simp only [Except.mapError, ok_bind] at h
    split at h
    · cases h
    · cases h
      exact ⟨_, _, rfl, under_key ns src, under_key ns dst⟩
  | set name value info =>
    simp only [scope, Use.request, prepare, prepareSet, decoded, bind_eq_ok, mapError_eq_ok] at h
    obtain ⟨p, hp, h⟩ := h
    have hname : p.name = key ns name := by
      simp only [SetParam.fromValue, visitStruct, bind_eq_ok, pure_eq_ok] at hp
      obtain ⟨fields, hfields, n, hn, -, -, -, -, -, -, rfl⟩ := hp
      rw [Generating.visitMap_eq hfields] at hn
      cases info <;> exact (Except.ok.inj hn).symm
    split at h
    · cases h
    · cases h
      refine ⟨_, _, rfl, ?_⟩
      rw [On, hname]
      exact under_key ns name

/-! ### On the map -/

/-- The maps differ inside a namespace at most. -/
def Besides (b : String) (m m' : Secrets) : Prop :=
  ∀ name, ¬ Under b name → m.lookup name = m'.lookup name

variable {b c : String} {m m' : Secrets}

lemma Besides.insert (h : Besides b m m') (name : String) (e : Entry) :
    Besides b (m.insert name e) (m'.insert name e) := by
  intro n hn
  by_cases heq : n = name
  · rw [heq, Finmap.lookup_insert, Finmap.lookup_insert]
  · rw [Finmap.lookup_insert_of_ne _ heq, Finmap.lookup_insert_of_ne _ heq]
    exact h n hn

lemma Besides.erase (h : Besides b m m') (name : String) :
    Besides b (m.erase name) (m'.erase name) := by
  intro n hn
  by_cases heq : n = name
  · rw [heq, Finmap.lookup_erase, Finmap.lookup_erase]
  · rw [Finmap.lookup_erase_ne heq, Finmap.lookup_erase_ne heq]
    exact h n hn

lemma besides_insert (m : Secrets) {name : String} (e : Entry) (hb : Under b name) :
    Besides b (m.insert name e) m := by
  intro n hn
  refine Finmap.lookup_insert_of_ne _ ?_
  rintro rfl
  exact hn hb

lemma besides_erase (m : Secrets) {name : String} (hb : Under b name) :
    Besides b (m.erase name) m := by
  intro n hn
  refine Finmap.lookup_erase_ne ?_
  rintro rfl
  exact hn hb

lemma Besides.trans {m'' : Secrets} (h : Besides b m m') (h' : Besides b m' m'') :
    Besides b m m'' :=
  fun n hn => (h n hn).trans (h' n hn)

lemma Besides.symm (h : Besides b m m') : Besides b m' m := fun n hn => (h n hn).symm

lemma Besides.mem_iff (h : Besides b m m') {name : String} (hn : ¬ Under b name) :
    name ∈ m ↔ name ∈ m' := by
  rw [Finmap.mem_iff, Finmap.mem_iff, h name hn]

/-- The same error, or the same answer and maps that still differ inside the namespace at most. -/
inductive Alike (b : String) : Except Err (Secrets × Reply) → Except Err (Secrets × Reply) → Prop
  | error (e : Err) : Alike b (.error e) (.error e)
  | ok {m m' : Secrets} (r : Reply) (h : Besides b m m') : Alike b (.ok (m, r)) (.ok (m', r))

/-- Operations on names outside the namespace do not see it. -/
lemma apply_alike (T : Totp.Packages) (now : ℕ) (h : Besides b m m') {op : Op}
    (hop : On (fun name => ¬ Under b name) op) :
    Alike b (Secrets.apply T now m op) (Secrets.apply T now m' op) := by
  cases op with
  | get name =>
    simp only [Secrets.apply, Secrets.get, h name hop]
    cases m'.lookup name with
    | none => exact .error _
    | some e => exact .ok _ h
  | set p =>
    simp only [Secrets.apply, Secrets.set, h p.name hop]
    cases m'.lookup p.name with
    | some e => exact .ok _ (h.insert _ _)
    | none =>
      cases p.value with
      | none => exact .error _
      | some v => exact .ok _ (h.insert _ _)
  | delete name =>
    simp only [Secrets.apply, Secrets.delete, h.mem_iff hop]
    split
    · exact .ok _ (h.erase name)
    · exact .error _
  | rename src dst =>
    simp only [Secrets.apply, Secrets.rename, h.mem_iff hop.2, h src hop.1]
    split
    · exact .error _
    · cases m'.lookup src with
      | none => exact .error _
      | some e => exact .ok _ ((h.erase src).insert dst e)
  | generate name value =>
    simp only [Secrets.apply, Secrets.generate, h name hop]
    cases m'.lookup name with
    | none => exact .ok _ (h.insert _ _)
    | some e => exact .ok _ (h.insert _ _)
  | totp name =>
    simp only [Secrets.apply, Secrets.totp, h name hop]
    cases m'.lookup name with
    | none => exact .error _
    | some e =>
      simp only
      cases Totp.code T e.value now 30 6 with
      | error err => exact .error _
      | ok code => exact .ok _ h
  | list => exact absurd hop id

/-- Operations on names of the namespace change nothing outside it. -/
lemma apply_local {T : Totp.Packages} {now : ℕ} {op : Op} {r : Reply} (hop : On (Under b) op)
    (h : Secrets.apply T now m op = .ok (m', r)) : Besides b m' m := by
  cases op with
  | get name =>
    simp only [Secrets.apply, Secrets.get] at h
    split at h <;> cases h
    exact fun n _ => rfl
  | set p =>
    simp only [Secrets.apply, Secrets.set] at h
    split at h <;> cases h
    · exact besides_insert m _ hop
    · exact besides_insert m _ hop
  | delete name =>
    simp only [Secrets.apply, Secrets.delete] at h
    split at h <;> cases h
    exact besides_erase m hop
  | rename src dst =>
    simp only [Secrets.apply] at h
    cases hr : Secrets.rename src dst m with
    | error e =>
      rw [hr] at h
      cases h
    | ok m₁ =>
      rw [hr] at h
      cases h
      obtain ⟨-, e, -, rfl⟩ := Secrets.rename_ok hr
      exact (besides_insert _ e hop.2).trans (besides_erase m hop.1)
  | generate name value =>
    simp only [Secrets.apply, Secrets.generate] at h
    split at h <;> cases h
    · exact besides_insert m _ hop
    · exact besides_insert m _ hop
  | totp name =>
    simp only [Secrets.apply] at h
    cases ht : Secrets.totp T name now m <;> rw [ht] at h <;> cases h
    exact fun n _ => rfl
  | list => exact absurd hop id

/-- The operation carries no entry over the edge of the namespace. -/
def Spares (b : String) : Op → Prop
  | .rename src dst => Under b src ↔ Under b dst
  | _ => True

lemma spares_cases {op : Op} (h : Spares b op) :
    op.reads = true ∨ On (Under b) op ∨ On (fun name => ¬ Under b name) op := by
  cases op with
  | get | list | totp => exact .inl rfl
  | set p => exact .inr (em (Under b p.name))
  | delete name | generate name => exact .inr (em (Under b name))
  | rename src dst =>
    by_cases hsrc : Under b src
    · exact .inr (.inl ⟨hsrc, h.mp hsrc⟩)
    · exact .inr (.inr ⟨hsrc, mt h.mpr hsrc⟩)

/-! ### On the store -/

/-- The stores differ inside a namespace at most. -/
structure Level (b : String) (x y : Store) : Prop where
  password : x.password = y.password
  locked : x.locked = y.locked
  lastUse : x.lastUse = y.lastUse
  secrets : Besides b x.secrets y.secrets

variable {a : String} {Key : Type} {x y z : Store} {T : Totp.Packages} {st : Settings} {env : Env}

lemma Level.refl (x : Store) : Level b x x := ⟨rfl, rfl, rfl, fun _ _ => rfl⟩

lemma Level.symm (h : Level b x y) : Level b y x :=
  ⟨h.password.symm, h.locked.symm, h.lastUse.symm, h.secrets.symm⟩

lemma Level.trans (h : Level b x y) (h' : Level b y z) : Level b x z :=
  ⟨h.password.trans h'.password, h.locked.trans h'.locked, h.lastUse.trans h'.lastUse,
    h.secrets.trans h'.secrets⟩

lemma Level.touch (h : Level b x y) (clock : ℕ) :
    Level b { x with lastUse := clock } { y with lastUse := clock } :=
  ⟨h.password, h.locked, rfl, h.secrets⟩

lemma Level.lock (h : Level b x y) : Level b { x with locked := true } { y with locked := true } :=
  ⟨h.password, rfl, h.lastUse, h.secrets⟩

lemma Level.tick (h : Level b x y) (st : Settings) (clock : ℕ) :
    Level b (x.tick st clock) (y.tick st clock) := by
  have hidle : (st.lockTimeout ≠ 0 ∧ st.lockTimeout * nanos ≤ clock - x.lastUse) ↔
      (st.lockTimeout ≠ 0 ∧ st.lockTimeout * nanos ≤ clock - y.lastUse) := by rw [h.lastUse]
  unfold Store.tick
  by_cases hy : st.lockTimeout ≠ 0 ∧ st.lockTimeout * nanos ≤ clock - y.lastUse
  · rw [if_pos (hidle.mpr hy), if_pos hy]
    exact h.lock
  · rw [if_neg (mt hidle.mp hy), if_neg hy]
    exact h

lemma session_reads (T : Totp.Packages) (now : ℕ) (x : Store) {op : Op} (hop : op.reads = true) :
    (x.session T now op).1 = x := by
  unfold Store.session
  split
  · rfl
  · cases hr : Secrets.apply T now x.secrets op with
    | error e => rfl
    | ok mr =>
      cases op with
      | get name =>
        simp only [Secrets.apply] at hr
        cases hg : Secrets.get name x.secrets <;> rw [hg] at hr <;> cases hr
        rfl
      | list =>
        cases hr
        rfl
      | totp name =>
        simp only [Secrets.apply] at hr
        cases hg : Secrets.totp T name now x.secrets <;> rw [hg] at hr <;> cases hr
        rfl
      | set | delete | rename | generate => cases hop

lemma level_local {op : Op} (hop : On (Under b) op) (now : ℕ) :
    Level b (x.session T now op).1 x := by
  unfold Store.session
  split
  · exact Level.refl x
  · split
    · exact Level.refl x
    · rename_i m r hr
      exact ⟨rfl, rfl, rfl, apply_local hop hr⟩

lemma Level.outside (h : Level b x y) {op : Op} (hop : On (fun name => ¬ Under b name) op)
    (now : ℕ) :
    Level b (x.session T now op).1 (y.session T now op).1 ∧
      (x.session T now op).2 = (y.session T now op).2 := by
  have halike := apply_alike T now h.secrets hop
  unfold Store.session
  generalize Secrets.apply T now x.secrets op = r at halike ⊢
  generalize Secrets.apply T now y.secrets op = r' at halike ⊢
  by_cases hy : y.locked = true
  · rw [if_pos (h.locked.trans hy), if_pos hy]
    exact ⟨h, rfl⟩
  · have hx : ¬ x.locked = true := by rwa [h.locked]
    rw [if_neg hx, if_neg hy]
    cases halike with
    | error e => exact ⟨h, rfl⟩
    | ok r hm => exact ⟨⟨h.password, h.locked, h.lastUse, hm⟩, rfl⟩

lemma Level.session (h : Level b x y) {op : Op} (hop : Spares b op) (now : ℕ) :
    Level b (x.session T now op).1 (y.session T now op).1 := by
  rcases spares_cases hop with hreads | hin | hout
  · rw [session_reads T now x hreads, session_reads T now y hreads]
    exact h
  · exact ((level_local hin now).trans h).trans (level_local hin now).symm
  · exact (h.outside hout now).1

lemma Level.call (h : Level b x y) {call : Call}
    (hspares : ∀ wait op, call = .session wait op → Spares b op) :
    Level b (x.call T st env call).1 (y.call T st env call).1 := by
  cases call with
  | hello | status | unlockCancel | bare => exact h
  | lock => exact h.lock
  | create password =>
    simp only [Store.call, Store.create, h.password]
    split
    · exact h
    · exact h
    · exact ⟨rfl, rfl, h.lastUse, fun _ _ => rfl⟩
  | unlock password =>
    simp only [Store.call, Store.unlock, h.password]
    split
    · exact h
    · split
      · exact ⟨rfl, rfl, h.lastUse, h.secrets⟩
      · exact h
  | rotate old new =>
    simp only [Store.call, Store.rotate, h.password]
    split
    · exact h
    · split
      · split
        · exact h
        · exact ⟨rfl, rfl, h.lastUse, h.secrets⟩
      · exact h
  | session wait op => exact h.session (hspares wait op rfl) env.now

/-! ### Runs -/

/-- What a daemon with consumers goes through: uses of their views, and whatever else. -/
inductive Act
  | use (ns : String) (env : Env) (u : Use)
  | other (ev : Event)

def Act.event : Act → Event
  | .use ns env u => .request env (scope ns u).request.1 (scope ns u).request.2
  | .other ev => ev

/-- The file system does not fail, and no request renames an entry into the namespace or out of
it: what such a rename carries over is what has been done on the other side of the edge. -/
structure Act.Fits (b : String) (s : Act) : Prop where
  faultless : s.event.faultless
  spares : ∀ env method params wait op, s.event = .request env method params →
    prepare env.random method params = .ok (.session wait op) → Spares b op

/-- The same act, or two uses of the view of `b`. -/
inductive Differs (b : String) : Act → Act → Prop
  | same (x : Act) : Differs b x x
  | inside (env : Env) (u u' : Use) : Differs b (.use b env u) (.use b env u')

def looks (a : String) : Act → Bool
  | .use c _ _ => c == a
  | .other _ => false

/-- What is done in the view of `b` has no effect on any answer that the view of `a` gets. -/
def Hidden (b a : String) : Prop :=
  ∀ (Key : Type) (L : Packages Key), L.toLibrary.Ideal → ∀ (cfg : Config) (fs : FileSystem)
    (clock : ℕ), fs cfg.vaultPath = none → ∀ acts acts' : List Act, (∀ x ∈ acts, x.Fits b) →
      List.Forall₂ (Differs b) acts acts' →
        picked (looks a) acts
            (answers (agent L) (cfg, ⟨fs, Inner.new Key clock⟩) (acts.map Act.event)) =
          picked (looks a) acts'
            (answers (agent L) (cfg, ⟨fs, Inner.new Key clock⟩) (acts'.map Act.event))

lemma touches_scope (ns : String) (u : Use) : touches (scope ns u).request.1 = true := by
  cases u <;> rfl

lemma handle_scope (T : Totp.Packages) (st : Settings) (env : Env) (ns : String) (u : Use) :
    (∃ e, ∀ x : Store, x.handle T st env (scope ns u).request.1 (scope ns u).request.2 =
      ({ x with lastUse := env.clock }, .error e)) ∨
    ∃ op, On (Under ns) op ∧ ∀ x : Store,
      x.handle T st env (scope ns u).request.1 (scope ns u).request.2 =
        ({ x with lastUse := env.clock } : Store).session T env.now op := by
  unfold Store.handle
  simp only [touches_scope, if_true]
  cases hp : prepare env.random (scope ns u).request.1 (scope ns u).request.2 with
  | error e => exact .inl ⟨e, fun _ => rfl⟩
  | ok call =>
    obtain ⟨wait, op, rfl, hop⟩ := prepare_scope hp
    exact .inr ⟨op, hop, fun _ => rfl⟩

lemma level_use (T : Totp.Packages) (st : Settings) (env : Env) (u : Use) (x : Store) :
    Level b (x.handle T st env (scope b u).request.1 (scope b u).request.2).1
      { x with lastUse := env.clock } := by
  rcases handle_scope T st env b u with ⟨e, he⟩ | ⟨op, hop, hs⟩
  · rw [he]
    exact Level.refl _
  · rw [hs]
    exact level_local hop env.now

lemma Level.use (hab : Apart a b) (h : Level b x y) (T : Totp.Packages) (st : Settings) (env : Env)
    (u : Use) :
    (x.handle T st env (scope a u).request.1 (scope a u).request.2).2 =
      (y.handle T st env (scope a u).request.1 (scope a u).request.2).2 := by
  rcases handle_scope T st env a u with ⟨e, he⟩ | ⟨op, hop, hs⟩
  · rw [he, he]
  · rw [hs, hs]
    exact ((h.touch env.clock).outside (hop.mono (apart_iff.mp hab)) env.now).2

lemma Level.handle (h : Level b x y) {method : String} {params : Json}
    (hspares : ∀ wait op, prepare env.random method params = .ok (.session wait op) → Spares b op) :
    Level b (x.handle T st env method params).1 (y.handle T st env method params).1 := by
  have htouched : Level b (if touches method then { x with lastUse := env.clock } else x)
      (if touches method then { y with lastUse := env.clock } else y) := by
    split
    · exact h.touch env.clock
    · exact h
  unfold Store.handle
  cases hp : prepare env.random method params with
  | error e => exact htouched
  | ok call =>
    refine htouched.call fun wait op hcall => hspares wait op ?_
    rw [hp, hcall]

lemma level_step (L : Packages Key) (hab : Apart a b) {s t : Act} {d e : Settings × Store}
    (hd : d.1 = e.1) (h : Level b d.2 e.2) (hst : Differs b s t) (hfits : s.Fits b) :
    (store L d s.event).1.1 = (store L e t.event).1.1 ∧
      Level b (store L d s.event).1.2 (store L e t.event).1.2 ∧
      (looks a s = true → (store L d s.event).2 = (store L e t.event).2) := by
  obtain ⟨st, x⟩ := d
  obtain ⟨st', y⟩ := e
  obtain rfl : st = st' := hd
  cases hst with
  | inside env u u' =>
    refine ⟨rfl, ?_, fun hlooks => ?_⟩
    · have hx := level_use (b := b) L.totp st env u x
      have hy := level_use (b := b) L.totp st env u' y
      exact (hx.trans (h.touch env.clock)).trans hy.symm
    · obtain rfl : b = a := beq_iff_eq.mp hlooks
      exact absurd List.prefix_rfl hab.1
  | same =>
    refine ⟨?_, ?_, fun hlooks => ?_⟩
    · cases s.event <;> rfl
    · cases hev : s.event with
      | request env method params =>
        exact h.handle fun wait op hp => hfits.spares env method params wait op hev hp
      | tick clock => exact h.tick st clock
      | restart => exact ⟨h.password, rfl, rfl, h.secrets⟩
    · cases s with
      | other ev => cases hlooks
      | use c env u =>
        obtain rfl : c = a := beq_iff_eq.mp hlooks
        exact congrArg some (h.use hab L.totp st env u)

lemma Differs.faultless {s t : Act} (h : Differs b s t) (hs : s.event.faultless) :
    t.event.faultless := by
  cases h with
  | same => exact hs
  | inside => exact hs

lemma faultless_of_differs {acts acts' : List Act} (h : List.Forall₂ (Differs b) acts acts')
    (hfits : ∀ x ∈ acts, x.Fits b) : ∀ x ∈ acts', x.event.faultless := by
  induction h with
  | nil => exact fun x hx => absurd hx List.not_mem_nil
  | cons hst _ ih =>
    rw [List.forall_mem_cons] at hfits ⊢
    exact ⟨hst.faultless hfits.1.faultless, ih hfits.2⟩

/-! ### Names in common -/

/-- A vault is created, `b` sets a name of its own, and `a` gets one of its own. -/
def collision (a b p q value : String) : List Act :=
  [.other (.request Sample.env "vault.create" (.obj [("password", .str "pw")])),
    .use b Sample.env (.set q (some value) none), .use a Sample.env (.get p)]

lemma collision_fits (a b p q value : String) : ∀ x ∈ collision a b p q value, x.Fits b := by
  intro x hx
  simp only [collision, List.mem_cons, List.not_mem_nil, or_false] at hx
  rcases hx with rfl | rfl | rfl
  · refine ⟨rfl, fun env method params wait op hev hp => ?_⟩
    cases hev
    cases hp
  · refine ⟨rfl, fun env method params wait op hev hp => ?_⟩
    cases hev
    obtain ⟨wait, op', hop', hon⟩ := prepare_scope hp
    cases hop'
    cases op with
    | rename src dst => exact iff_of_true hon.1 hon.2
    | _ => trivial
  · refine ⟨rfl, fun env method params wait op hev hp => ?_⟩
    cases hev
    cases hp
    trivial

lemma isBlank_key (ns name : String) : isBlank (key ns name) = false := by
  simp [isBlank, key, Totp.isWhitespace]

lemma prepare_set (random : ℕ → UInt8) (ns name value : String) :
    prepare random (scope ns (.set name (some value) none)).request.1
        (scope ns (.set name (some value) none)).request.2 =
      .ok (.session true (.set ⟨key ns name, some value, none, true⟩)) := by
  have hparams : SetParam.fromValue (scope ns (.set name (some value) none)).request.2 =
      .ok ⟨key ns name, some value, none, true⟩ := rfl
  simp only [scope, Use.request, prepare, prepareSet, decoded] at hparams ⊢
  rw [hparams]
  simp [Except.mapError, bind, Except.bind, isBlank_key]

lemma collision_answers {a b p q : String} (hkey : key a p = key b q) (value : String) :
    answers (store Sample.packages) (settings Sample.packages Sample.config, Store.new 0)
        ((collision a b p q value).map Act.event) =
      [some (.ok .unit), some (.ok .unit),
        some (.ok (.secret value (entryMeta (newEntry value 7))))] := by
  let made : Store := ⟨∅, some "pw", false, Sample.env.clock⟩
  have hcreate : (Store.new 0).handle Sample.packages.totp
      (settings Sample.packages Sample.config) Sample.env "vault.create"
        (.obj [("password", .str "pw")]) = (made, .ok .unit) := rfl
  have hset : made.handle Sample.packages.totp (settings Sample.packages Sample.config) Sample.env
      (scope b (.set q (some value) none)).request.1
      (scope b (.set q (some value) none)).request.2 =
        ({ made with secrets := (∅ : Secrets).insert (key b q) (newEntry value 7) },
          .ok .unit) := by
    unfold Store.handle
    rw [prepare_set, touches_scope]
    rfl
  have hget : ∀ x : Store, x.locked = false → x.secrets.lookup (key a p) = some (newEntry value 7) →
      (x.handle Sample.packages.totp (settings Sample.packages Sample.config) Sample.env
        (scope a (.get p)).request.1 (scope a (.get p)).request.2).2 =
          .ok (.secret value (entryMeta (newEntry value 7))) := by
    intro x hx he
    change (Store.session _ _ (.get (key a p)) { x with lastUse := Sample.env.clock }).2 = _
    simp only [Store.session, hx, Bool.false_eq_true, if_false, Secrets.apply, Secrets.get, he]
    rfl
  simp only [collision, List.map_cons, List.map_nil, Act.event, answers, WalletRefines.store,
    hcreate, hset]
  rw [hget]
  · rfl
  · rw [hkey]
    exact Finmap.lookup_insert _

/-- The views of two namespaces are apart from one another exactly when neither prefix begins with
the other: then, and only then, whatever is done in the one leaves every answer in the other as
it is. -/
theorem hidden_iff {a b : String} : Hidden b a ↔ Apart a b := by
  constructor
  · intro hhidden
    rw [apart_iff]
    intro name ha hb
    obtain ⟨p, rfl⟩ := under_iff.mp ha
    obtain ⟨q, hkey⟩ := under_iff.mp hb
    have hsame :=
      hhidden Sample.Key Sample.packages Sample.library_ideal Sample.config (fun _ => none)
      0 rfl (collision a b p q "x") (collision a b p q "y") (collision_fits a b p q "x")
      (.cons (.same _) (.cons (.inside _ _ _) (.cons (.same _) .nil)))
    rw [answers_store _ Sample.library_ideal _ _ _ rfl _ fun ev hev => ?_,
      answers_store _ Sample.library_ideal _ _ _ rfl _ fun ev hev => ?_,
      collision_answers hkey, collision_answers hkey] at hsame
    · by_cases hab : b = a <;> simp [picked, collision, looks, hab] at hsame
    · obtain ⟨x, hx, rfl⟩ := List.mem_map.mp hev
      exact (collision_fits a b p q "y" x hx).faultless
    · obtain ⟨x, hx, rfl⟩ := List.mem_map.mp hev
      exact (collision_fits a b p q "x" x hx).faultless
  · intro hab Key L hL cfg fs clock hfs acts acts' hfits hdiffers
    have hleft : ∀ ev ∈ acts.map Act.event, ev.faultless :=
      List.forall_mem_map.mpr fun x hx => (hfits x hx).faultless
    have hright : ∀ ev ∈ acts'.map Act.event, ev.faultless :=
      List.forall_mem_map.mpr (faultless_of_differs hdiffers hfits)
    rw [answers_store L hL cfg fs clock hfs _ hleft, answers_store L hL cfg fs clock hfs _ hright,
      answers_map, answers_map]
    refine picked_eq (R := fun d e => d.1 = e.1 ∧ Level b d.2 e.2)
      (E := fun s t => s.Fits b ∧ Differs b s t) ?_ ?_ ⟨rfl, Level.refl _⟩
      ((List.forall₂_and_left acts acts').mpr ⟨hfits, hdiffers⟩)
    · rintro s t ⟨-, hst⟩
      cases hst with
      | same => rfl
      | inside => rfl
    · rintro d e s t ⟨hd, hlevel⟩ ⟨hs, hst⟩
      obtain ⟨hset, hlevel', hans⟩ := level_step L hab hd hlevel hst hs
      exact ⟨⟨hset, hlevel'⟩, hans⟩

end LvimKeyring.Scopes

import LvimKeyring.GitCredential
import LvimKeyring.Sealing
import LvimKeyring.Sample

/-!
Passwords that are generated and stored.

A request that cannot be decoded counts as one without parameters. So a generated password is
handed out as if it had been stored when the name is there to store it under, but another
parameter is not readable.
-/

namespace LvimKeyring.Generating

open Rpc Params Crypto Vault Server Result
open GitCredential (entry)

/-! ### What decodes -/

/-- The parameters of an object as they may be sent. A key is in an object once. -/
def Readable (kvs : List (String × Json)) : Prop :=
  ∀ kv ∈ kvs, (kv.1 = "length" → kv.2 = .null ∨ ∃ n : ℕ, n < 2 ^ 64 ∧ kv.2 = .num n) ∧
    (kv.1 = "symbols" → kv.2 = .null ∨ ∃ b, kv.2 = .bool b) ∧
    (kv.1 = "store_as" → kv.2 = .null ∨ ∃ s, kv.2 = .str s)

lemma visitMap_ok {fs : List Field} {kvs : List (String × Json)} :
    (∃ p, visitMap fs kvs = .ok p) ↔
      ∀ kv ∈ kvs, ∀ f, fs.find? (·.name == kv.1) = some f → f.check kv.2 = .ok () := by
  simp only [visitMap, bind_eq_ok, pure_eq_ok, List.forM_eq_forM]
  constructor
  · rintro ⟨_, ⟨⟩, hloop, -⟩ kv hkv f hf
    have hcheck := forM_eq_ok.mp hloop kv hkv
    rw [hf] at hcheck
    exact hcheck
  · intro hchecks
    refine ⟨_, (), forM_eq_ok.mpr fun kv hkv => ?_, rfl⟩
    cases hf : fs.find? (·.name == kv.1) with
    | none => rfl
    | some f => exact hchecks kv hkv f hf

lemma visitMap_eq {fs : List Field} {kvs : List (String × Json)} {p : Present}
    (h : visitMap fs kvs = .ok p) : p = fun name => kvs.lookup name := by
  simp only [visitMap, bind_eq_ok, pure_eq_ok] at h
  obtain ⟨-, -, rfl⟩ := h
  rfl

lemma check_length {j : Json} :
    (Field.of "length" (decodeOption decodeUsize) .option).check j = .ok ()
    ↔ j = .null ∨ ∃ n : ℕ, n < 2 ^ 64 ∧ j = .num n := by
  cases j with
  | num n =>
    by_cases hn : 0 ≤ n ∧ n < 2 ^ 64
    · have hnat : (n.toNat : ℤ) = n := Int.toNat_of_nonneg hn.1
      have hread : decodeUsize (.num n) = .ok n.toNat := if_pos hn
      simp only [Field.of, decodeOption, hread, Except.map, true_iff]
      exact .inr ⟨n.toNat, by omega, by rw [hnat]⟩
    · have hread : decodeUsize (.num n) = .error (.invalidValue (.num n) "usize") := if_neg hn
      simp only [Field.of, decodeOption, hread, Except.map, reduceCtorEq, false_or, false_iff,
        not_exists, not_and, Json.num.injEq]
      intro m hm heq
      omega
  | _ => simp [Field.of, decodeOption, decodeUsize, decodeUint, Except.map]

lemma check_symbols {j : Json} :
    (Field.of "symbols" (decodeOption decodeBool) .option).check j = .ok ()
    ↔ j = .null ∨ ∃ b, j = .bool b := by
  cases j <;> simp [Field.of, decodeOption, decodeBool, Except.map]

lemma check_storeAs {j : Json} :
    (Field.of "store_as" (decodeOption decodeString) .option).check j = .ok ()
    ↔ j = .null ∨ ∃ s, j = .str s := by
  cases j <;> simp [Field.of, decodeOption, decodeString, Except.map]

lemma optional_total {α : Type} {p : Present} {name : String} {dec : Decoder α} {dflt : α}
    {absent : Absent}
    (h : ∀ j, p name = some j → (Field.of name dec absent).check j = .ok ()) :
    ∃ a, Rpc.optional p name dec dflt = .ok a := by
  cases hp : p name with
  | none => exact ⟨dflt, by rw [Rpc.optional, hp]⟩
  | some j =>
    have hcheck := h j hp
    simp only [Field.of] at hcheck
    cases hdec : dec j with
    | ok a => exact ⟨a, by rw [Rpc.optional, hp]; exact hdec⟩
    | error e =>
      rw [hdec] at hcheck
      cases hcheck

lemma fromValue_ok_iff (kvs : List (String × Json)) :
    (∃ p, GenerateParam.fromValue (.obj kvs) = .ok p) ↔ Readable kvs := by
  -- The three checks of the visitor are the three conditions of `Readable`.
  have hchecks : (∃ p, visitMap [.of "length" (decodeOption decodeUsize) .option,
      .of "symbols" (decodeOption decodeBool) .option,
      .of "store_as" (decodeOption decodeString) .option] kvs = .ok p) ↔ Readable kvs := by
    rw [visitMap_ok]
    refine forall₂_congr fun kv _ => ?_
    rw [← check_length, ← check_symbols, ← check_storeAs]
    obtain ⟨name, j⟩ := kv
    constructor
    · intro hcheck
      refine ⟨?_, ?_, ?_⟩
      · rintro rfl
        exact hcheck _ rfl
      · rintro rfl
        exact hcheck _ rfl
      · rintro rfl
        exact hcheck _ rfl
    · rintro ⟨hlength, hsymbols, hstore⟩ f hf
      have hmem := List.mem_of_find?_eq_some hf
      have hname : f.name = name := by simpa using List.find?_some hf
      simp only [List.mem_cons, List.not_mem_nil, or_false] at hmem
      rcases hmem with rfl | rfl | rfl
      · exact hlength hname.symm
      · exact hsymbols hname.symm
      · exact hstore hname.symm
  rw [← hchecks]
  simp only [GenerateParam.fromValue, visitStruct, bind_eq_ok, pure_eq_ok]
  constructor
  · rintro ⟨_, p, hp, -⟩
    exact ⟨p, hp⟩
  rintro ⟨p, hp⟩
  have hpass := visitMap_ok.mp ⟨p, hp⟩
  have hmem : ∀ name j, p name = some j → (name, j) ∈ kvs := by
    intro name j hj
    rw [visitMap_eq hp] at hj
    exact mem_of_lookup hj
  have hlength : ∃ a, Rpc.optional p "length" (decodeOption decodeUsize) none = .ok a :=
    optional_total fun j hj => hpass _ (hmem _ _ hj) (.of "length" _ .option) rfl
  have hsymbols : ∃ a, Rpc.optional p "symbols" (decodeOption decodeBool) none = .ok a :=
    optional_total fun j hj => hpass _ (hmem _ _ hj) (.of "symbols" _ .option) rfl
  have hstore : ∃ a, Rpc.optional p "store_as" (decodeOption decodeString) none = .ok a :=
    optional_total fun j hj => hpass _ (hmem _ _ hj) (.of "store_as" _ .option) rfl
  obtain ⟨length, hlength⟩ := hlength
  obtain ⟨symbols, hsymbols⟩ := hsymbols
  obtain ⟨name, hstore⟩ := hstore
  exact ⟨⟨length, symbols, name⟩, p, hp, length, hlength, symbols, hsymbols, name, hstore, rfl⟩

lemma fields_of_fromValue {kvs : List (String × Json)} {p : GenerateParam}
    (h : GenerateParam.fromValue (.obj kvs) = .ok p) :
    Rpc.optional (fun name => kvs.lookup name) "length" (decodeOption decodeUsize) none
      = .ok p.length ∧
    Rpc.optional (fun name => kvs.lookup name) "symbols" (decodeOption decodeBool) none
      = .ok p.symbols ∧
    Rpc.optional (fun name => kvs.lookup name) "store_as" (decodeOption decodeString) none
      = .ok p.storeAs := by
  simp only [GenerateParam.fromValue, visitStruct, bind_eq_ok, pure_eq_ok] at h
  obtain ⟨present, hvisit, length, hlength, symbols, hsymbols, storeAs, hstore, rfl⟩ := h
  rw [visitMap_eq hvisit] at hlength hsymbols hstore
  exact ⟨hlength, hsymbols, hstore⟩

lemma storeAs_of_fromValue {kvs : List (String × Json)} {p : GenerateParam} {name : String}
    (h : GenerateParam.fromValue (.obj kvs) = .ok p)
    (hname : kvs.lookup "store_as" = some (.str name)) :
    p.storeAs = some name := by
  obtain ⟨-, -, hstore⟩ := fields_of_fromValue h
  rw [Rpc.optional, hname] at hstore
  exact (Except.ok.inj hstore).symm

/-! ### What a request stores -/

variable {Key : Type} {L : Packages Key} {cfg : Config} {env : Env} {w : World Key}
variable {s : Session Key} {params : Json}

/-- What becomes of an entry that gets another value. -/
def Kept (e e' : Entry) : Prop :=
  e'.user = e.user ∧ e'.url = e.url ∧ e'.notes = e.notes ∧ e'.tags = e.tags ∧ e'.totp = e.totp ∧
    e'.created = e.created

/-- What is asked of one request. -/
def Honest (L : Packages Key) (cfg : Config) (env : Env) (w : World Key) (params : Json) : Prop :=
  let o := dispatch L cfg env w "secret.generate" params
  (∀ kvs name v, params = .obj kvs → kvs.lookup "store_as" = some (.str name) →
    isBlank name = false → o.reply = .ok (.generated v) →
      (∃ e', entry o.world name = some e' ∧ e'.value = v ∧
        ∀ e, entry w name = some e → Kept e e') ∧
      ∀ n, n ≠ name → entry o.world n = entry w n) ∧
  ∀ err, o.reply = .error err → ∀ n, entry o.world n = entry w n

lemma dispatch_generate : dispatch L cfg env w "secret.generate" params =
    exec L cfg env (touch env w) (prepareGenerate env.random params) := rfl

lemma dispatch_bare {value : String} (h : prepareGenerate env.random params = .bare value) :
    dispatch L cfg env w "secret.generate" params =
      .of (touch env w) (.ok (.generated value)) [] := by
  rw [dispatch_generate, h]
  rfl

variable (cfg) in
/-- A request that stores in an unlocked wallet. -/
lemma dispatch_stored (hL : L.Ideal) (hio : env.io = .none) (hs : w.inner.session = some s)
    {name value : String}
    (h : prepareGenerate env.random params = .session true (.generate name value)) :
    ∃ e', e'.value = value ∧ (∀ e, s.body.entries[name]? = some e → Kept e e') ∧
      (dispatch L cfg env w "secret.generate" params).reply = .ok (.generated value) ∧
      ∀ n, entry (dispatch L cfg env w "secret.generate" params).world n =
        (s.body.entries.insert name e')[n]? := by
  have hrun : ∃ e', e'.value = value ∧ (∀ e, s.body.entries[name]? = some e → Kept e e') ∧
      secretGenerate name value env.now s.body =
        .ok (⟨s.body.entries.insert name e'⟩, .generated value) := by
    unfold secretGenerate
    cases s.body.entries[name]? with
    | none => exact ⟨newEntry value env.now, rfl, fun e he => (by cases he), rfl⟩
    | some e =>
      refine ⟨{ e with value, updated := env.now }, rfl, fun e' he => ?_, rfl⟩
      cases he
      exact ⟨rfl, rfl, rfl, rfl, rfl, rfl⟩
  obtain ⟨e', hvalue, hkept, hrun⟩ := hrun
  have htouch : (touch env w).inner.session = some s := hs
  obtain ⟨fs, hfs⟩ :=
    write_none hL w.fs cfg.vaultPath { s with body := ⟨s.body.entries.insert name e'⟩ }
    env.nonce
  have hdispatch : dispatch L cfg env w "secret.generate" params =
      Outcome.of ({ touch env w with fs }.withSession
        (some { s with body := ⟨s.body.entries.insert name e'⟩ })) (.ok (.generated value)) [] := by
    rw [dispatch_generate, h, exec, Server.withSession]
    have hsave : save L.toLibrary env.io (touch env w).fs cfg.vaultPath
        { s with body := ⟨s.body.entries.insert name e'⟩ } env.nonce = (fs, .ok ()) := by
      rw [hio]
      exact hfs
    simp only [htouch, Op.run, hrun, Op.reads, Bool.false_eq_true, if_false, hsave]
  refine ⟨e', hvalue, hkept, ?_, fun n => ?_⟩
  · rw [hdispatch]
    rfl
  · rw [hdispatch]
    rfl

/-! ### Honest requests -/

lemma entry_of (hs : w.inner.session = some s) (n : String) : entry w n = s.body.entries[n]? := by
  rw [entry, hs]
  rfl

lemma honest_of_stored (hL : L.Ideal) (hio : env.io = .none) (hs : w.inner.session = some s)
    {name value : String}
    (h : prepareGenerate env.random params = .session true (.generate name value))
    (hname : ∀ kvs name', params = .obj kvs → kvs.lookup "store_as" = some (.str name') →
      name' = name) :
    Honest L cfg env w params := by
  obtain ⟨e', hvalue, hkept, hreply, hentry⟩ := dispatch_stored cfg hL hio hs h
  refine ⟨fun kvs name' v hobj hlookup _ hv => ?_, fun err herr => ?_⟩
  · rw [hreply] at hv
    cases hv
    cases hname kvs name' hobj hlookup
    refine ⟨⟨e', ?_, hvalue, fun e he => hkept e ?_⟩, fun n hn => ?_⟩
    · rw [hentry, Std.ExtTreeMap.getElem?_insert_self]
    · rw [← entry_of hs]
      exact he
    · have hne : compare name n ≠ .eq := fun heq => hn (Std.LawfulEqCmp.eq_of_compare heq).symm
      rw [hentry, Std.ExtTreeMap.getElem?_insert, if_neg hne, entry_of hs]
  · rw [hreply] at herr
    cases herr

lemma honest_of_bare {value : String} (h : prepareGenerate env.random params = .bare value)
    (hname : ∀ kvs name, params = .obj kvs → kvs.lookup "store_as" = some (.str name) →
      isBlank name = false → False) :
    Honest L cfg env w params := by
  refine ⟨fun kvs name v hobj hlookup hblank _ => (hname kvs name hobj hlookup hblank).elim,
    fun err herr => ?_⟩
  rw [dispatch_bare h] at herr
  cases herr

lemma prepare_of_readable {random : ℕ → UInt8} {p : GenerateParam}
    (h : GenerateParam.fromValue params = .ok p) :
    prepareGenerate random params =
      match p.storeAs.filter fun n => !isBlank n with
      | some name => .session true (.generate name
          (generatePassword random (p.length.getD 24) (p.symbols.getD true)))
      | none => .bare (generatePassword random (p.length.getD 24) (p.symbols.getD true)) := by
  rw [prepareGenerate, h]
  rfl

lemma prepare_of_unreadable {random : ℕ → UInt8} {e : DecodeError}
    (h : GenerateParam.fromValue params = .error e) :
    prepareGenerate random params = .bare (generatePassword random 24 true) := by
  rw [prepareGenerate, h]
  rfl

lemma exists_password_ne (value : String) : ∃ random, generatePassword random 24 true ≠ value := by
  by_contra hall
  have hall : ∀ random, generatePassword random 24 true = value := by simpa using hall
  have heq := (hall fun _ => 0).trans (hall fun _ => 1).symm
  exact absurd heq (by decide +kernel)

/-- The environment of a request that can go wrong in nothing. -/
def faultless (random : ℕ → UInt8) : Env :=
  ⟨0, 0, .replicate _ 0, .replicate _ 0, random, .none⟩

lemma not_honest_of_bare {kvs : List (String × Json)} {name : String}
    (hname : kvs.lookup "store_as" = some (.str name)) (hblank : isBlank name = false)
    {e : DecodeError}
    (h : GenerateParam.fromValue (.obj kvs) = .error e) (L : Packages Key) (cfg : Config)
    (w : World Key) :
    ∃ env, env.io = .none ∧ ¬ Honest L cfg env w (.obj kvs) := by
  obtain ⟨random, hrandom⟩ := exists_password_ne (((entry w name).map (·.value)).getD "")
  refine ⟨faultless random, rfl, fun hhonest => ?_⟩
  have hprepare : prepareGenerate (faultless random).random (.obj kvs) =
      .bare (generatePassword random 24 true) := prepare_of_unreadable h
  have hbare : dispatch L cfg (faultless random) w "secret.generate" (.obj kvs) =
      .of (touch (faultless random) w) (.ok (.generated (generatePassword random 24 true))) [] :=
    dispatch_bare hprepare
  have hreply : (dispatch L cfg (faultless random) w "secret.generate" (.obj kvs)).reply =
      .ok (.generated (generatePassword random 24 true)) := by
    rw [hbare]
    rfl
  obtain ⟨⟨e', he', hvalue, -⟩, -⟩ := hhonest.1 kvs name _ rfl hname hblank hreply
  have hsame : entry w name = some e' := by
    rw [← he', hbare]
    rfl
  rw [hsame] at hrandom
  exact hrandom hvalue.symm

/-- A generated password is stored, if it is to be, exactly when the request can be decoded. -/
theorem honest_iff_readable (hL : L.Ideal) (hunlocked : w.inner.session.isSome = true) :
    (∀ env, env.io = .none → Honest L cfg env w params) ↔
      ∀ kvs name, params = .obj kvs → kvs.lookup "store_as" = some (.str name) →
        isBlank name = false → Readable kvs := by
  obtain ⟨s, hs⟩ := Option.isSome_iff_exists.mp hunlocked
  constructor
  · rintro hhonest kvs name rfl hname hblank
    refine (fromValue_ok_iff kvs).mp ?_
    cases h : GenerateParam.fromValue (.obj kvs) with
    | ok p => exact ⟨p, rfl⟩
    | error e =>
      obtain ⟨env, hio, hnot⟩ := not_honest_of_bare hname hblank h L cfg w
      exact absurd (hhonest env hio) hnot
  · intro hreadable env hio
    cases h : GenerateParam.fromValue params with
    | error e =>
      refine honest_of_bare (prepare_of_unreadable h) ?_
      rintro kvs name rfl hname hblank
      obtain ⟨p, hp⟩ := (fromValue_ok_iff kvs).mpr (hreadable kvs name rfl hname hblank)
      rw [hp] at h
      cases h
    | ok p =>
      have hstore : ∀ kvs name, params = .obj kvs → kvs.lookup "store_as" = some (.str name) →
          p.storeAs = some name := by
        rintro kvs name rfl hname
        exact storeAs_of_fromValue h hname
      cases hfilter : p.storeAs.filter fun n => !isBlank n with
      | none =>
        refine honest_of_bare
          (by rw [prepare_of_readable h, hfilter]) fun kvs name hobj hname hblank => ?_
        rw [hstore kvs name hobj hname] at hfilter
        simp [hblank] at hfilter
      | some name =>
        refine honest_of_stored hL hio hs (by rw [prepare_of_readable h, hfilter])
          fun kvs name' hobj hname => ?_
        have hsome := (Option.filter_eq_some_iff.mp hfilter).1
        rw [hstore kvs name' hobj hname] at hsome
        exact Option.some.inj hsome

theorem honest_iff_readable_created : Honest Sample.packages Sample.config Sample.env Sample.created
    (.obj [("length", .num 20), ("store_as", .str "a")]) := by
  refine (honest_iff_readable Sample.library_ideal (by decide +kernel)).mpr
    (fun kvs name hobj hname _ => ?_) Sample.env rfl
  cases hobj
  simp only [Readable, List.forall_mem_cons]
  exact ⟨⟨fun _ => .inr ⟨20, by decide, rfl⟩, fun h => absurd h (by decide),
    fun h => absurd h (by decide)⟩,
    ⟨fun h => absurd h (by decide), fun h => absurd h (by decide), fun _ => .inr ⟨"a", rfl⟩⟩,
    fun _ h => by cases h⟩

/-- The length comes as a text. -/
theorem not_honest : ¬ ∀ env (w : World Sample.Key) params, w.inner.session.isSome = true →
    env.io = .none → Honest Sample.packages Sample.config env w params := by
  intro hall
  have hhonest := hall Sample.env Sample.created
    (.obj [("length", .str "20"), ("store_as", .str "a")]) (by decide +kernel) rfl
  obtain ⟨⟨e', he', -⟩, -⟩ := hhonest.1 _ "a" (generatePassword (fun _ => 0) 24 true) rfl rfl
    (by decide +kernel) (by decide +kernel)
  have hnone : (entry (dispatch Sample.packages Sample.config Sample.env Sample.created
      "secret.generate" (.obj [("length", .str "20"), ("store_as", .str "a")])).world "a").isNone =
        true := by
    decide +kernel
  rw [he'] at hnone
  cases hnone

end LvimKeyring.Generating

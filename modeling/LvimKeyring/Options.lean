import Mathlib.Data.List.GetD
import LvimKeyring.EventLoop
import LvimKeyring.Generating

/-!
`M.generate`, from the options of its caller to the value its callback is given.

The options and the configured defaults make the parameters of a request, numbers as
`vim.json.encode` prints them. The agent prepares the request with the random bytes it draws
then, and carries it out at once or when the wallet has been unlocked.
-/

namespace LvimKeyring.Options

open Rpc Params Crypto Vault Server Result Generating

/-! ### The request -/

/-- `config.generate` -/
structure Defaults where
  length : ℕ
  symbols : Bool

structure Opts where
  length : Option ℕ
  symbols : Option Bool
  storeAs : Option String

/-- `opts.symbols ~= nil and opts.symbols or config.generate.symbols` -/
def symbolsParam (config : Defaults) (opts : Opts) : Bool :=
  if opts.symbols.isSome && opts.symbols.getD false then true else config.symbols

/-- `opts.length or config.generate.length` -/
def lengthParam (config : Defaults) (opts : Opts) : ℕ := opts.length.getD config.length

/-- The parameters of the request, with what the agent reads of a printed number. -/
def generateParams (number : ℕ → Json) (config : Defaults) (opts : Opts) : Json :=
  .obj ([("length", number (lengthParam config opts)),
    ("symbols", .bool (symbolsParam config opts))] ++ optField "store_as" .str opts.storeAs)

/-- What the callback is given of a reply: `res and res.value`. -/
def received (serde : DecodeError → String) (reply : Except Err Reply) : Option Json :=
  match EventLoop.answer (respond serde 1 reply) with
  | .ok (some res) => EventLoop.field res "value"
  | _ => none

variable {Key : Type} (L : Packages Key) (cfg : Config) (serde : DecodeError → String)
variable (number : ℕ → Json) (config : Defaults) (opts : Opts)

/-- The value of a request that was prepared with some random bytes and carried out in some
world. -/
def obtained (random : ℕ → UInt8) (env : Env) (w : World Key) : Option Json :=
  received serde
    (exec L cfg env w (prepareGenerate random (generateParams number config opts))).reply

/-! ### The statement -/

def alphabet (symbols : Bool) : List Char := if symbols then alnum ++ sym else alnum

/-- The length that is asked for, within bounds. -/
def wantedLength : ℕ := max 1 (min (opts.length.getD config.length) 512)

def wantedSymbols : Bool := opts.symbols.getD config.symbols

/-- What is asked of one call. -/
structure Honours : Prop where
  right : ∀ {random env} {w : World Key} {v},
    obtained L cfg serde number config opts random env w = some v →
    ∃ s, v = .str s ∧ s.length = wantedLength config opts ∧
      ∀ c ∈ s.toList, c ∈ alphabet (wantedSymbols config opts)
  every : ∀ c ∈ alphabet (wantedSymbols config opts), ∃ b, ∀ random env (w : World Key) s i,
    i < wantedLength config opts → random i = b →
    obtained L cfg serde number config opts random env w = some (.str s) → s.toList[i]? = some c

/-- An integer of up to fourteen digits is printed as one. A longer one may be printed as a
float. -/
structure Prints : Prop where
  either : ∀ n, number n = .num n ∨ ∃ bits, number n = .float bits
  digits : ∀ n < 10 ^ 14, number n = .num n

/-- The length reaches the agent. -/
def Arrives (n : ℕ) : Prop := number n = .num n ∧ n < 2 ^ 64

/-! ### Passwords -/

variable {L cfg serde number config opts} {random : ℕ → UInt8} {env : Env} {w : World Key}

lemma toList_password (random : ℕ → UInt8) (n : ℕ) (symbols : Bool) :
    (generatePassword random n symbols).toList = (List.range (min (max n 1) 512)).map fun i =>
      (alphabet symbols).getD ((random i).toNat % (alphabet symbols).length) 'A' :=
  String.toList_ofList

lemma length_password (random : ℕ → UInt8) (n : ℕ) (symbols : Bool) :
    (generatePassword random n symbols).length = min (max n 1) 512 := by
  rw [← String.length_toList, toList_password, List.length_map, List.length_range]

lemma alphabet_length (symbols : Bool) :
    0 < (alphabet symbols).length ∧ (alphabet symbols).length ≤ 256 := by
  cases symbols <;> decide +kernel

lemma mem_password {random : ℕ → UInt8} {n : ℕ} {symbols : Bool} :
    ∀ c ∈ (generatePassword random n symbols).toList, c ∈ alphabet symbols := by
  intro c hc
  rw [toList_password] at hc
  obtain ⟨i, -, rfl⟩ := List.mem_map.mp hc
  have hlt := Nat.mod_lt (random i).toNat (alphabet_length symbols).1
  rw [List.getD_eq_getElem _ _ hlt]
  exact List.getElem_mem hlt

lemma exists_byte {symbols : Bool} {c : Char} (hc : c ∈ alphabet symbols) :
    ∃ b : UInt8, (alphabet symbols).getD (b.toNat % (alphabet symbols).length) 'A' = c := by
  obtain ⟨k, hk, rfl⟩ := List.getElem_of_mem hc
  have hbyte : k < 256 := by
    have := (alphabet_length symbols).2
    omega
  refine ⟨UInt8.ofNat k, ?_⟩
  rw [UInt8.toNat_ofNat_of_lt' hbyte, Nat.mod_eq_of_lt hk, List.getD_eq_getElem _ _ hk]

lemma password_at (random : ℕ → UInt8) {n : ℕ} (symbols : Bool) {i : ℕ}
    (hi : i < min (max n 1) 512) :
    (generatePassword random n symbols).toList[i]? =
      some ((alphabet symbols).getD ((random i).toNat % (alphabet symbols).length) 'A') := by
  rw [toList_password, List.getElem?_map, List.getElem?_range hi, Option.map_some]

/-! ### Requests -/

lemma decodeUsize_nat {n : ℕ} (h : n < 2 ^ 64) : decodeUsize (.num n) = .ok n := by
  have hlt : (n : ℤ) < 2 ^ 64 := by exact_mod_cast h
  have hread {z : ℤ} (hz : 0 ≤ z ∧ z < 2 ^ 64) : decodeUsize (.num z) = .ok z.toNat := if_pos hz
  rw [hread ⟨Int.natCast_nonneg n, hlt⟩, Int.toNat_natCast]

lemma readable_params (h : Arrives number (lengthParam config opts)) :
    ∃ p, GenerateParam.fromValue (generateParams number config opts) = .ok p ∧
      p.length = some (lengthParam config opts) ∧ p.symbols = some (symbolsParam config opts) := by
  obtain ⟨hnum, hlt⟩ := h
  have hread : Readable ([("length", number (lengthParam config opts)),
      ("symbols", .bool (symbolsParam config opts))] ++ optField "store_as" .str opts.storeAs) := by
    intro kv hkv
    simp only [List.cons_append, List.nil_append, List.mem_cons] at hkv
    rcases hkv with rfl | rfl | hkv
    · exact ⟨fun _ => .inr ⟨_, hlt, hnum⟩, fun h => absurd h (by simp),
        fun h => absurd h (by simp)⟩
    · exact ⟨fun h => absurd h (by simp), fun _ => .inr ⟨_, rfl⟩,
        fun h => absurd h (by simp)⟩
    · cases hstore : opts.storeAs with
      | none =>
        rw [hstore] at hkv
        cases hkv
      | some name =>
        rw [hstore] at hkv
        obtain rfl := List.mem_singleton.mp hkv
        exact ⟨fun h => absurd h (by simp), fun h => absurd h (by simp),
          fun _ => .inr ⟨name, rfl⟩⟩
  obtain ⟨p, hp⟩ := (fromValue_ok_iff _).mpr hread
  obtain ⟨hlength, hsymbols, -⟩ := fields_of_fromValue hp
  refine ⟨p, hp, ?_, (Except.ok.inj hsymbols).symm⟩
  have hdec : decodeOption decodeUsize (.num (lengthParam config opts))
      = (decodeUsize (.num (lengthParam config opts))).map some := rfl
  have hlook : decodeOption decodeUsize (number (lengthParam config opts)) = .ok p.length := hlength
  rw [hnum, hdec, decodeUsize_nat hlt] at hlook
  exact (Except.ok.inj hlook).symm

/-! ### Values -/

lemma received_value (v : String) : received serde (.ok (.generated v)) = some (.str v) := rfl

lemma received_error (e : Err) : received serde (.error e) = none := rfl

lemma secretGenerate_eq (name value : String) (ts : ℕ) (b : Body) :
    ∃ body, secretGenerate name value ts b = .ok (body, .generated value) := by
  unfold secretGenerate
  cases b.entries[name]? with
  | none => exact ⟨_, rfl⟩
  | some e => exact ⟨_, rfl⟩

lemma reply_generate {wait : Bool} {name value : String} {r : Reply}
    (h : (exec L cfg env w (.session wait (.generate name value))).reply = .ok r) :
    r = .generated value := by
  cases hs : w.inner.session with
  | none =>
    simp only [exec, Server.withSession, hs] at h
    cases h
  | some s =>
    obtain ⟨body, hrun⟩ := secretGenerate_eq name value env.now s.body
    simp only [exec, Server.withSession, hs, Op.run, hrun, Op.reads, Bool.false_eq_true,
      if_false] at h
    split at h
    · cases h
    · exact (Except.ok.inj h).symm

/-- What the agent takes for the parameters. -/
def readParams (number : ℕ → Json) (config : Defaults) (opts : Opts) : GenerateParam :=
  orDefault (GenerateParam.fromValue (generateParams number config opts)) ⟨none, none, none⟩

/-- The password of what the agent takes for the parameters. -/
def password (number : ℕ → Json) (config : Defaults) (opts : Opts) (random : ℕ → UInt8) : String :=
  generatePassword random ((readParams number config opts).length.getD 24)
    ((readParams number config opts).symbols.getD true)

lemma prepare_eq (number : ℕ → Json) (config : Defaults) (opts : Opts) (random : ℕ → UInt8) :
    (∃ name, prepareGenerate random (generateParams number config opts)
      = .session true (.generate name (password number config opts random))) ∨
    prepareGenerate random (generateParams number config opts)
      = .bare (password number config opts random) := by
  have hcases : ∀ call, prepareGenerate random (generateParams number config opts) = call →
      (∃ name, call = .session true (.generate name (password number config opts random))) ∨
        call = .bare (password number config opts random) := by
    intro call hcall
    simp only [prepareGenerate] at hcall
    split at hcall
    · exact .inl ⟨_, hcall.symm⟩
    · exact .inr hcall.symm
  exact hcases _ rfl

lemma obtained_eq {v : Json} (h : obtained L cfg serde number config opts random env w = some v) :
    v = .str (password number config opts random) := by
  rw [obtained] at h
  cases hreply : (exec L cfg env w
      (prepareGenerate random (generateParams number config opts))).reply with
  | error e =>
    rw [hreply, received_error] at h
    cases h
  | ok r =>
    rw [hreply] at h
    have hr : r = .generated (password number config opts random) := by
      rcases prepare_eq number config opts random with ⟨name, hcall⟩ | hcall
      · rw [hcall] at hreply
        exact reply_generate hreply
      · rw [hcall] at hreply
        exact (Except.ok.inj hreply).symm
    rw [hr, received_value] at h
    exact (Option.some.inj h).symm

variable (cfg serde number config opts) in
lemma exists_obtained [Nonempty Key] (hL : L.Ideal) (random : ℕ → UInt8) : ∃ env w,
    obtained L cfg serde number config opts random env w
      = some (.str (password number config opts random)) := by
  obtain ⟨key⟩ := ‹Nonempty Key›
  let s : Session Key := ⟨.default, key, .replicate _ 0, .default⟩
  let w : World Key := ⟨fun _ => none, { Inner.new Key 0 with session := some s }⟩
  refine ⟨faultless random, touch (faultless random) w, ?_⟩
  rcases prepare_eq number config opts random with ⟨name, hcall⟩ | hcall
  · obtain ⟨-, -, -, hreply, -⟩ := dispatch_stored cfg hL
      (show (faultless random).io = .none from rfl)
      (show w.inner.session = some s from rfl) hcall
    rw [dispatch_generate] at hreply
    exact (congrArg (received serde) hreply).trans (received_value _)
  · rw [obtained, hcall]
    rfl

/-! ### Options that are honoured -/

lemma symbolsParam_eq : symbolsParam config opts = wantedSymbols config opts ↔
    ¬ (opts.symbols = some false ∧ config.symbols = true) := by
  obtain ⟨length, symbols, name⟩ := opts
  obtain ⟨dflt, config⟩ := config
  cases config <;> rcases symbols with _ | _ | _ <;> simp [symbolsParam, wantedSymbols]

lemma password_of_arrives (h : Arrives number (lengthParam config opts)) (random : ℕ → UInt8) :
    password number config opts random
      = generatePassword random (lengthParam config opts) (symbolsParam config opts) := by
  obtain ⟨p, hp, hlength, hsymbols⟩ := readable_params h
  have hread : readParams number config opts = p := by
    rw [readParams, hp]
    rfl
  rw [password, hread, hlength, hsymbols, Option.getD_some, Option.getD_some]

lemma wantedLength_eq : wantedLength config opts = min (max (lengthParam config opts) 1) 512 := by
  unfold wantedLength lengthParam
  omega

lemma honours_of (hsymbols : ¬ (opts.symbols = some false ∧ config.symbols = true))
    (harrives : Arrives number (lengthParam config opts)) :
    Honours L cfg serde number config opts where
  right {random _ _ _} h := by
    have hv := obtained_eq h
    rw [password_of_arrives harrives, symbolsParam_eq.mpr hsymbols] at hv
    refine ⟨_, hv, ?_, mem_password⟩
    rw [length_password, wantedLength_eq]
  every c hc := by
    obtain ⟨b, hb⟩ := exists_byte hc
    refine ⟨b, fun random env w s i hi hrandom h => ?_⟩
    have hs := Json.str.inj (obtained_eq h)
    rw [password_of_arrives harrives, symbolsParam_eq.mpr hsymbols] at hs
    rw [wantedLength_eq] at hi
    rw [hs, password_at random _ hi, hrandom, hb]

/-- A length that does not arrive is taken for an absent one. -/
lemma length_of_lost (hn : Prints number) (h : ¬ Arrives number (lengthParam config opts))
    (random : ℕ → UInt8) : (password number config opts random).length = 24 ∧
      wantedLength config opts = 512 := by
  have hlong : 10 ^ 14 ≤ lengthParam config opts := by
    by_contra hshort
    refine h ⟨hn.digits _ (not_le.mp hshort), ?_⟩
    omega
  have hunreadable : ¬ ∃ p,
      GenerateParam.fromValue (generateParams number config opts) = .ok p := by
    intro hp
    have hkv := ((fromValue_ok_iff _).mp hp _ List.mem_cons_self).1 rfl
    rcases hkv with hnull | ⟨n, hlt, hnum⟩
    · rcases hn.either (lengthParam config opts) with heq | ⟨bits, heq⟩
      · rw [heq] at hnull
        cases hnull
      · rw [heq] at hnull
        cases hnull
    · rcases hn.either (lengthParam config opts) with heq | ⟨bits, heq⟩
      · have hn' : lengthParam config opts = n := by
          rw [heq] at hnum
          exact Int.natCast_inj.mp (Json.num.inj hnum)
        exact h ⟨heq, hn' ▸ hlt⟩
      · rw [heq] at hnum
        cases hnum
  have hread : readParams number config opts = ⟨none, none, none⟩ := by
    rw [readParams]
    cases hp : GenerateParam.fromValue (generateParams number config opts) with
    | ok p => exact absurd ⟨p, hp⟩ hunreadable
    | error e => rfl
  refine ⟨?_, ?_⟩
  · rw [password, hread, length_password]
    rfl
  · rw [wantedLength_eq]
    omega

lemma not_honours_of_false [Nonempty Key] (hL : L.Ideal)
    (hfalse : opts.symbols = some false ∧ config.symbols = true)
    (harrives : Arrives number (lengthParam config opts)) :
    ¬ Honours L cfg serde number config opts := by
  intro h
  -- a byte that stands for the first of the punctuation
  obtain ⟨env, w, hvalue⟩ := exists_obtained cfg serde number config opts hL fun _ => 62
  obtain ⟨s, hs, -, hchars⟩ := h.right hvalue
  have hparam : symbolsParam config opts = true := by simp [symbolsParam, hfalse]
  have hwanted : wantedSymbols config opts = false := by simp [wantedSymbols, hfalse.1]
  rw [← Json.str.inj hs, password_of_arrives harrives, hparam, hwanted] at hchars
  have hfirst : '!' ∈ (generatePassword (fun _ => 62) (lengthParam config opts) true).toList := by
    have hpos : 0 < min (max (lengthParam config opts) 1) 512 := by omega
    have hat := password_at (fun _ => 62) true hpos
    exact List.mem_of_getElem? hat
  exact absurd (hchars '!' hfirst) (by decide)

/-- The options are honoured exactly when no `false` falls through, and the length arrives. -/
theorem honours_iff [Nonempty Key] (hL : L.Ideal) (hn : Prints number) :
    Honours L cfg serde number config opts ↔
      ¬ (opts.symbols = some false ∧ config.symbols = true) ∧
        Arrives number (opts.length.getD config.length) := by
  constructor
  · intro h
    have harrives : Arrives number (lengthParam config opts) := by
      by_contra hlost
      obtain ⟨env, w, hvalue⟩ := exists_obtained cfg serde number config opts hL fun _ => 0
      obtain ⟨s, hs, hlength, -⟩ := h.right hvalue
      obtain ⟨hshort, hlong⟩ := length_of_lost hn hlost fun _ => 0
      rw [← Json.str.inj hs] at hlength
      omega
    exact ⟨fun hfalse => not_honours_of_false hL hfalse harrives h, harrives⟩
  · rintro ⟨hsymbols, harrives⟩
    exact honours_of hsymbols harrives

/-- Numbers that are printed with fourteen digits. -/
def printed (n : ℕ) : Json := if n < 10 ^ 14 then .num n else .float (Float.ofNat n).toBits

lemma prints_printed : Prints printed where
  either n := by
    by_cases h : n < 10 ^ 14
    · exact .inl (if_pos h)
    · exact .inr ⟨_, if_neg h⟩
  digits _ h := if_pos h

theorem honours_iff_twenty : Honours Sample.packages Sample.config (fun _ => "") printed ⟨24, false⟩
    ⟨some 20, some true, some "a"⟩ := by
  refine (honours_iff Sample.library_ideal prints_printed).mpr ⟨fun h => ?_, ?_⟩
  · cases h.1
  · exact ⟨prints_printed.digits 20 (by decide), by decide⟩

/-- The caller wants no punctuation, and the configured default is to have it. -/
theorem not_honours : ¬ Honours Sample.packages Sample.config (fun _ => "") printed ⟨24, true⟩
    ⟨none, some false, none⟩ :=
  not_honours_of_false Sample.library_ideal ⟨rfl, rfl⟩
    ⟨prints_printed.digits 24 (by decide), by decide⟩

end LvimKeyring.Options

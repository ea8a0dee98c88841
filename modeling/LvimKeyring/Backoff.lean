import LvimKeyring.Sample
import LvimKeyring.Sealing

/-!
The delay after a wrong password.

The requests of one connection are handled one after the other, with ticks of the idle timer in
between. What the daemon counts is failed unlocks; a wrong password is told of by a rotate too.
-/

namespace LvimKeyring.Backoff

open Rpc Params Crypto Vault Server Transition Result

variable {Key : Type}

/-! ### The law -/

inductive Event
  /-- A request, sent once the reply to the one before it has come. -/
  | request (env : Env) (method : String) (params : Json)
  | tick (clock : ℕ)

/-- The failures since the last create, unlock or rotate that succeeded: the replies that name a
wrong password, and the unlocks that failed for another reason. -/
structure Tally where
  wrong : ℕ
  other : ℕ

/-- The methods whose success installs a session. -/
def opening : List String := ["vault.create", "vault.unlock", "vault.rotate"]

variable (L : Packages Key) (cfg : Config)

def step (w : World Key) : Event → Option (World Key)
  | .request env method params => some (dispatch L cfg env w method params).world
  | .tick clock => some (autolockTick cfg clock w).1

/-- The request is an unlock whose parameters decode. -/
def isUnlock (env : Env) (method : String) (params : Json) : Bool :=
  match prepare env.random method params with
  | .ok (.unlock _) => true
  | _ => false

def Tally.count (g : Tally) (w : World Key) : Event → World Key → Tally
  | .request env method params, _ =>
    match (dispatch L cfg env w method params).reply with
    | .ok _ => if method ∈ opening then ⟨0, 0⟩ else g
    | .error e =>
      if e = .wrongPassword then { g with wrong := g.wrong + 1 }
      else if isUnlock env method params then { g with other := g.other + 1 }
      else g
  | .tick _, _ => g

/-- The delay before the `k`th wrong-password reply since the last success, in seconds. -/
def due (k : ℕ) : ℕ := min (2 ^ (k - 1)) 16

/-- A wrong-password reply comes after the delay that is due; a success forgets the failures and
nothing else does. -/
def Paced (x : Tally × World Key) : Event → Prop
  | .request env method params =>
    let o := dispatch L cfg env x.2 method params
    (o.reply = .error .wrongPassword → o.slept = due (x.1.wrong + 1)) ∧
      (if o.reply.isOk ∧ method ∈ opening then o.world.inner.failCount = 0
        else x.2.inner.failCount ≤ o.world.inner.failCount)
  | .tick clock => x.2.inner.failCount ≤ (autolockTick cfg clock x.2).1.inner.failCount

instance (x : Tally × World Key) : DecidablePred (Paced L cfg x)
  | .request _ _ _ => inferInstanceAs (Decidable (_ ∧ _))
  | .tick _ => inferInstanceAs (Decidable (_ ≤ _))

/-- No request tells a wrong password without the delay, whatever was sent before. -/
def NoFreeOracle : Prop :=
  ∀ (Key : Type) (L : Packages Key) (cfg : Config) (fs : FileSystem) (clock : ℕ) (es : List Event),
    L.toLibrary.Ideal → Along (track (step L cfg) (Tally.count L cfg)) (Paced L cfg)
      (⟨0, 0⟩, ⟨fs, Inner.new Key clock⟩) es

/-- A rotate does not name a wrong password. An unlock that does either follows no unlock that
failed for another reason, or is at least the fifth that is told so. -/
def RegularCall (env : Env) (x : Tally × World Key) : Call → Prop
  | .rotate old _ =>
    Vault.unlock L.toLibrary env.io x.2.fs cfg.vaultPath (asBytes old) ≠ .error .wrongPassword
  | .unlock password =>
    Vault.unlock L.toLibrary env.io x.2.fs cfg.vaultPath (asBytes password)
      = .error .wrongPassword → x.1.other = 0 ∨ 4 ≤ x.1.wrong
  | _ => True

def Regular (x : Tally × World Key) : Event → Prop
  | .request env method params =>
    ∀ c, prepare env.random method params = .ok c → RegularCall L cfg env x c
  | .tick _ => True

/-! ### Where a wrong password is found -/

section Errors

variable {L : Library Key}

lemma deriveKey_ne (pw : Bytes) (salt : Salt) (params : KdfParams) :
    deriveKey L.toPrimitives pw salt params ≠ .error .wrongPassword := by
  intro h
  simp only [deriveKey, bind_eq_error, mapError_eq_error, reduceCtorEq, and_false, exists_false,
    or_false] at h
  unfold KdfParams.validate at h
  split at h <;> cases h

lemma store_ne (io : Faults) (fs : FileSystem) (path : String) (out : Bytes) :
    (store io fs path out).2 ≠ .error .wrongPassword := by
  unfold store
  cases (if hasParent path then io.fails .createDirAll else none) with
  | some e => simp
  | none =>
    cases io.fails .openTemp with
    | some e => simp
    | none =>
      cases io.fails .writeAll with
      | some e => simp
      | none =>
        cases io.fails .syncAll with
        | some e => simp
        | none => cases io.fails .rename <;> simp

lemma render_ne (s : Session Key) (nonce : Nonce) : render L s nonce ≠ .error .wrongPassword := by
  intro h
  simp only [render, bind_eq_error, mapError_eq_error, reduceCtorEq, and_false, exists_false,
    false_or] at h
  obtain ⟨json, -, hseal | ⟨ct, -, hpure⟩⟩ := h
  · unfold aeadSeal at hseal
    split at hseal <;> cases hseal
  · cases hpure

lemma write_ne (io : Faults) (fs : FileSystem) (path : String) (s : Session Key) (nonce : Nonce) :
    (write L io fs path s nonce).2 ≠ .error .wrongPassword := by
  have hrender := render_ne (L := L) s nonce
  unfold write
  cases hr : render L s nonce with
  | error e =>
    rw [hr] at hrender
    exact fun h => hrender (by rw [Except.error.inj h])
  | ok out => exact store_ne io fs path out

lemma writeNew_ne (io : Faults) (fs : FileSystem) (path : String) (s : Session Key)
    (nonce : Nonce) : (writeNew L io fs path s nonce).2 ≠ .error .wrongPassword := by
  have hwrite := write_ne (L := L) io fs path s nonce
  unfold writeNew
  generalize write L io fs path s nonce = r at hwrite
  obtain ⟨fs', e | u⟩ := r
  · exact fun h => hwrite (by rw [Except.error.inj h])
  · exact fun h => by cases h

lemma create_ne (io : Faults) (fs : FileSystem) (path : String) (pw : Bytes) (params : KdfParams)
    (salt : Salt) (nonce : Nonce) :
    (Vault.create L io fs path pw params salt nonce).2 ≠ .error .wrongPassword := by
  unfold Vault.create
  split
  · simp
  · unfold createAbsent
    have hkey := deriveKey_ne (L := L) pw salt params
    cases hk : deriveKey L.toPrimitives pw salt params with
    | error e =>
      rw [hk] at hkey
      exact fun h => hkey (by rw [Except.error.inj h])
    | ok key => exact writeNew_ne io fs path _ nonce

lemma rotate_wrong_iff (io : Faults) (fs : FileSystem) (path : String) (old new : Bytes)
    (params : KdfParams) (salt : Salt) (nonce : Nonce) :
    (Vault.rotate L io fs path old new params salt nonce).2 = .error .wrongPassword ↔
      Vault.unlock L io fs path old = .error .wrongPassword := by
  unfold Vault.rotate
  cases Vault.unlock L io fs path old with
  | error e => simp
  | ok current =>
    have hread : (rotateRead L io fs path current new params salt nonce).2
        ≠ .error .wrongPassword := by
      unfold rotateRead
      have hkey := deriveKey_ne (L := L) new salt params
      cases hk : deriveKey L.toPrimitives new salt params with
      | error e =>
        rw [hk] at hkey
        exact fun h => hkey (by rw [Except.error.inj h])
      | ok key => exact writeNew_ne io fs path _ nonce
    simpa using hread

end Errors

variable {L cfg} {env : Env} {w : World Key}

lemma run_ne (T : Totp.Packages) (now : ℕ) (b : Body) (op : Op) :
    op.run T now b ≠ .error .wrongPassword := by
  cases op with
  | list => simp [Op.run]
  | get name =>
    simp only [Op.run, secretGet]
    split <;> simp
  | set p =>
    simp only [Op.run, secretSet]
    split
    · simp
    · split <;> simp
  | delete name =>
    simp only [Op.run, secretDelete]
    split <;> simp
  | rename src dst =>
    simp only [Op.run, secretRename]
    split
    · simp
    · split <;> simp
  | generate name value =>
    simp only [Op.run, secretGenerate]
    split <;> simp
  | totp name =>
    simp only [Op.run, secretTotp, Totp.code]
    split
    · simp
    · split
      · rename_i err h
        split at h
        · cases h
          simp
        · split at h <;> cases h
          simp
      · simp

lemma withSession_ne (wait : Bool) (op : Op) :
    (withSession L cfg env wait op w).reply ≠ .error .wrongPassword := by
  unfold withSession
  split
  · simp
  · rename_i s hs
    have hrun := run_ne L.totp env.now s.body op
    split
    · rename_i e he
      rw [he] at hrun
      exact fun h => hrun (by rw [Except.error.inj h])
    · rename_i body r hr
      split
      · simp [Outcome.of]
      · have hwrite := write_ne (L := L.toLibrary) env.io w.fs cfg.vaultPath
        simp only [save]
        split
        · rename_i e hfs
          have hne := hwrite { s with body } env.nonce
          rw [hfs] at hne
          exact fun h => hne (by rw [Except.error.inj h])
        · simp [Outcome.of]

lemma decoded_ne {α : Type} (r : Except DecodeError α) : decoded r ≠ .error .wrongPassword := by
  cases r <;> simp [decoded, Except.mapError]

lemma prepare_ne (random : ℕ → UInt8) (method : String) (params : Json) :
    prepare random method params ≠ .error .wrongPassword := by
  intro h
  unfold prepare at h
  split at h
  case h_1 | h_4 | h_5 | h_6 | h_12 | h_13 | h_15 => cases h
  case h_2 | h_3 | h_7 | h_8 | h_10 | h_14 =>
    rcases bind_eq_error.mp h with hdecode | ⟨p, -, hpure⟩
    · exact decoded_ne _ hdecode
    · cases hpure
  case h_9 | h_11 =>
    rcases bind_eq_error.mp h with hdecode | ⟨p, -, hrest⟩
    · exact decoded_ne _ hdecode
    · split at hrest <;> cases hrest

/-! ### What a request does to the count -/

/-- What a call comes to: an opening one succeeds, an unlock or a rotate is refused, or no password
is at stake. -/
inductive Came (w : World Key) : Call → Outcome Key → Prop
  | opened {c : Call} {o : Outcome Key} {r : Reply} (hc : c.method ∈ opening)
    (hr : o.reply = .ok r) (hn : o.world.inner.failCount = 0) : Came w c o
  | refused {password : String} {o : Outcome Key} {e : Err} (hr : o.reply = .error e)
    (hn : o.world.inner.failCount = min (w.inner.failCount + 1) maxFails)
    (hs : o.slept = backoff (min (w.inner.failCount + 1) maxFails)) : Came w (.unlock password) o
  | unrotated {old new : String} {o : Outcome Key} {e : Err} (hr : o.reply = .error e)
    (hn : o.world.inner.failCount = w.inner.failCount) (hs : o.slept = 0) :
    Came w (.rotate old new) o
  | aside {c : Call} {o : Outcome Key} (hr : o.reply ≠ .error .wrongPassword)
    (hc : o.reply.isOk = true → c.method ∉ opening) (hunlock : ∀ pw, c ≠ .unlock pw)
    (hrotate : ∀ old new, c ≠ .rotate old new)
    (hn : o.world.inner.failCount = w.inner.failCount) : Came w c o

variable (L cfg env w) in
lemma exec_came (c : Call) : Came w c (exec L cfg env w c) := by
  cases c with
  | create password =>
    have hne := create_ne (L := L.toLibrary) env.io w.fs cfg.vaultPath (asBytes password) cfg.kdf
      env.salt env.nonce
    simp only [exec, Server.create]
    split
    · rename_i fs e he
      refine .aside ?_ (fun h => by cases h) (by simp) (by simp) rfl
      rw [he] at hne
      exact fun h => hne (by rw [Except.error.inj h])
    · exact .opened (by simp [Call.method, opening]) rfl rfl
  | unlock password =>
    simp only [exec, Server.unlock]
    split
    · exact .opened (by simp [Call.method, opening]) rfl rfl
    · exact .refused rfl rfl rfl
  | rotate old new =>
    simp only [exec, Server.rotate]
    split
    · exact .unrotated rfl rfl rfl
    · exact .opened (by simp [Call.method, opening]) rfl rfl
  | session wait op =>
    obtain ⟨session, -, hinner⟩ := withSession_inner L cfg env wait op w
    refine .aside (withSession_ne wait op) (fun _ => ?_) (by simp) (by simp) (by rw [exec, hinner])
    cases op <;> simp [Call.method, opening]
  | hello | status | lock | unlockCancel | bare =>
    exact .aside (fun h => by cases h) (fun _ => by simp [Call.method, opening]) (by simp)
      (by simp) rfl

lemma unlock_reply (password : String) (e : Err) :
    (exec L cfg env w (.unlock password)).reply = .error e ↔
      Vault.unlock L.toLibrary env.io w.fs cfg.vaultPath (asBytes password) = .error e := by
  simp only [exec, Server.unlock]
  cases Vault.unlock L.toLibrary env.io w.fs cfg.vaultPath (asBytes password) with
  | ok s => simp [install, Outcome.of]
  | error e' => simp

variable (L cfg env w) in
lemma rotate_reply (old new : String) :
    (exec L cfg env w (.rotate old new)).reply = .error .wrongPassword ↔
      Vault.unlock L.toLibrary env.io w.fs cfg.vaultPath (asBytes old) = .error .wrongPassword := by
  rw [← rotate_wrong_iff env.io w.fs cfg.vaultPath (asBytes old) (asBytes new) cfg.kdf env.salt
    env.nonce]
  simp only [exec, Server.rotate]
  generalize Vault.rotate L.toLibrary env.io w.fs cfg.vaultPath (asBytes old) (asBytes new) cfg.kdf
    env.salt env.nonce = r
  obtain ⟨fs, e | s⟩ := r
  · simp [Outcome.of]
  · simp [install, Outcome.of]

variable (L cfg w) in
lemma dispatch_ok {method : String} {params : Json} {c : Call}
    (h : prepare env.random method params = .ok c) :
    ∃ w', dispatch L cfg env w method params = exec L cfg env w' c ∧
      w'.inner.failCount = w.inner.failCount ∧ w'.fs = w.fs := by
  refine ⟨if touches method then touch env w else w, ?_, ?_, ?_⟩
  · simp only [dispatch, h]
  · split <;> rfl
  · split <;> rfl

variable (L cfg w) in
lemma dispatch_error {method : String} {params : Json} {e : Err}
    (h : prepare env.random method params = .error e) :
    (dispatch L cfg env w method params).reply = .error e ∧
      (dispatch L cfg env w method params).world.inner.failCount = w.inner.failCount := by
  simp only [dispatch, h]
  refine ⟨rfl, ?_⟩
  split <;> rfl

/-! ### The delays -/

/-- The counter counts the unlocks that failed. -/
def Counted (x : Tally × World Key) : Prop :=
  x.2.inner.failCount = min (x.1.wrong + x.1.other) maxFails

lemma due_eq (k : ℕ) : due k = 2 ^ min (k - 1) 4 := by
  unfold due
  by_cases hk : k - 1 ≤ 4
  · have hle : 2 ^ (k - 1) ≤ 2 ^ 4 := Nat.pow_le_pow_right (by omega) hk
    rw [Nat.min_eq_left hk]
    omega
  · have hge : 2 ^ 4 ≤ 2 ^ (k - 1) := Nat.pow_le_pow_right (by omega) (by omega)
    rw [Nat.min_eq_right (show 4 ≤ k - 1 by omega)]
    omega

lemma backoff_due_iff (k j : ℕ) :
    backoff (min (min (k + j) maxFails + 1) maxFails) = due (k + 1) ↔ j = 0 ∨ 4 ≤ k := by
  rw [backoff, Nat.one_shiftLeft, due_eq, Nat.pow_right_inj (by omega)]
  unfold maxFails
  omega

variable {x : Tally × World Key} {method : String} {params : Json}

/-- A call is answered after the delay that is due exactly when it is regular. -/
lemma call_paced_iff (hx : Counted x) {c : Call} (hcount : w.inner.failCount = x.2.inner.failCount)
    (hfs : w.fs = x.2.fs) {o : Outcome Key} (ho : exec L cfg env w c = o) :
    ((o.reply = .error .wrongPassword → o.slept = due (x.1.wrong + 1)) ∧
      (if o.reply.isOk ∧ c.method ∈ opening then o.world.inner.failCount = 0
        else x.2.inner.failCount ≤ o.world.inner.failCount)) ↔ RegularCall L cfg env x c := by
  have hmax : x.2.inner.failCount ≤ maxFails := hx.trans_le (Nat.min_le_right _ _)
  have hcame := exec_came L cfg env w c
  rw [ho] at hcame
  cases hcame with
  | @opened _ _ r hc hr hn =>
    have hne : o.reply ≠ .error .wrongPassword := by
      rw [hr]
      simp
    have hopen : o.reply.isOk = true ∧ c.method ∈ opening := by
      rw [hr]
      exact ⟨rfl, hc⟩
    rw [if_pos hopen]
    refine iff_of_true ⟨fun h => absurd h hne, hn⟩ ?_
    rw [← ho] at hne
    cases c with
    | unlock password =>
      rw [ne_eq, unlock_reply, hfs] at hne
      exact fun h => absurd h hne
    | rotate old new =>
      rw [ne_eq, rotate_reply, hfs] at hne
      exact hne
    | _ => trivial
  | @refused password _ e hr hn hs =>
    have hunlock := (unlock_reply password e).mp (ho.symm ▸ hr)
    have hfailed : ¬ (o.reply.isOk = true ∧ (Call.unlock password).method ∈ opening) := by
      rw [hr]
      exact fun h => by cases h.1
    have hle : x.2.inner.failCount ≤ o.world.inner.failCount := by
      omega
    -- Failures of other methods make the delay too long, unless it is at its maximum already.
    have hslept : o.slept = due (x.1.wrong + 1) ↔ x.1.other = 0 ∨ 4 ≤ x.1.wrong := by
      rw [hs, hcount, hx, backoff_due_iff]
    rw [if_neg hfailed, hslept, hr, RegularCall, ← hfs, hunlock, Except.error.injEq,
      Except.error.injEq]
    exact ⟨fun h => h.1, fun h => ⟨h, hle⟩⟩
  | @unrotated old new _ e hr hn hs =>
    have hold := rotate_reply L cfg env w old new
    have hfailed : ¬ (o.reply.isOk = true ∧ (Call.rotate old new).method ∈ opening) := by
      rw [hr]
      exact fun h => by cases h.1
    have hle : x.2.inner.failCount ≤ o.world.inner.failCount := by
      omega
    -- A rotate does not sleep, whatever is due.
    have hdue : o.slept ≠ due (x.1.wrong + 1) := by
      rw [hs, due_eq]
      exact (Nat.pow_pos (by omega)).ne
    rw [if_neg hfailed, RegularCall, ← hfs, ne_eq, ← hold, ho]
    exact ⟨fun h hwrong => hdue (h.1 hwrong), fun h => ⟨fun hwrong => absurd hwrong h, hle⟩⟩
  | aside hr hc hunlock hrotate hn =>
    have hle : x.2.inner.failCount ≤ o.world.inner.failCount := by
      omega
    have hnot : ¬ (o.reply.isOk = true ∧ c.method ∈ opening) := fun h => hc h.1 h.2
    rw [if_neg hnot]
    refine iff_of_true ⟨fun h => absurd h hr, hle⟩ ?_
    cases c with
    | unlock password => exact absurd rfl (hunlock password)
    | rotate old new => exact absurd rfl (hrotate old new)
    | _ => trivial

lemma tick_failCount (cfg : Config) (clock : ℕ) (w : World Key) :
    (autolockTick cfg clock w).1.inner.failCount = w.inner.failCount := by
  unfold autolockTick
  split
  · rfl
  · simp only
    split <;> rfl

lemma paced_iff (hx : Counted x) (e : Event) : Paced L cfg x e ↔ Regular L cfg x e := by
  cases e with
  | tick clock => exact iff_of_true (tick_failCount cfg clock x.2).ge trivial
  | request env method params =>
    unfold Paced Regular
    cases hp : prepare env.random method params with
    | error e =>
      obtain ⟨hr, hn⟩ := dispatch_error L cfg x.2 hp
      have hne : e ≠ .wrongPassword := fun h => prepare_ne _ _ _ (h ▸ hp)
      refine iff_of_true ?_ fun c hc => ?_
      · simp [hr, hn, hne, Except.isOk, Except.toBool]
      · rw [hp] at hc
        cases hc
    | ok c =>
      obtain ⟨w', hd, hcount, hfs⟩ := dispatch_ok L cfg x.2 hp
      have hcall := call_paced_iff hx hcount hfs hd.symm
      rw [← prepare_method hp] at hcall
      refine hcall.trans ⟨fun h c' hc' => ?_, fun h => h c hp⟩
      rw [hp] at hc'
      rwa [← Except.ok.inj hc']

/-- The counter goes on counting the failed unlocks through every event that is regular. -/
lemma counted_step {w' : World Key} {e : Event} (hx : Counted x) (hreg : Regular L cfg x e)
    (hstep : step L cfg x.2 e = some w') : Counted (x.1.count L cfg x.2 e w', w') := by
  cases e with
  | tick clock =>
    cases hstep
    unfold Counted
    rw [tick_failCount]
    exact hx
  | request env method params =>
    cases hstep
    unfold Counted at hx ⊢
    simp only [Tally.count]
    cases hp : prepare env.random method params with
    | error e =>
      obtain ⟨hr, hn⟩ := dispatch_error L cfg x.2 hp
      have hne : e ≠ .wrongPassword := fun h => prepare_ne _ _ _ (h ▸ hp)
      have hnot : isUnlock env method params = false := by
        simp only [isUnlock, hp]
      rw [hr, hn, hx]
      simp [hnot, hne]
    | ok c =>
      obtain ⟨w', hd, hcount, hfs⟩ := dispatch_ok L cfg x.2 hp
      have hcall := hreg c hp
      obtain rfl := prepare_method hp
      rw [hd]
      have hcame := exec_came L cfg env w' c
      generalize ho : exec L cfg env w' c = o at hcame
      cases hcame with
      | opened hc hr hn => simp [hr, hn, hc]
      | @refused password _ e hr hn hs =>
        have his : isUnlock env (Call.unlock password).method params = true := by
          simp only [isUnlock, hp]
        rw [hr, hn, hcount, hx]
        by_cases he : e = .wrongPassword
        · simp only [he, if_true]
          omega
        · simp only [he, his, if_true, if_false]
          omega
      | @unrotated old new _ e hr hn hs =>
        have hnot : isUnlock env (Call.rotate old new).method params = false := by
          simp only [isUnlock, hp]
        -- A rotate refused for its password would not be regular.
        have hne : e ≠ .wrongPassword := by
          rintro rfl
          rw [← ho, rotate_reply, hfs] at hr
          exact hcall hr
        rw [hr, hn, hcount, hx]
        simp [hnot, hne]
      | aside hr hc hunlock hrotate hn =>
        have hnot : isUnlock env c.method params = false := by
          simp only [isUnlock, hp]
          cases c with
          | unlock password => exact absurd rfl (hunlock password)
          | _ => rfl
        rw [hn, hcount, hx]
        generalize o.reply = r at hr hc
        cases r with
        | ok r =>
          have hm : c.method ∉ opening := hc rfl
          simp [hm]
        | error e =>
          have hne : e ≠ .wrongPassword := fun he => hr (by rw [he])
          simp [hnot, hne]

/-- **A wrong password costs the delay that is due** on every sequence of requests that are
regular, and on no other. -/
theorem paced_iff_regular (L : Packages Key) (cfg : Config) (fs : FileSystem) (clock : ℕ)
    (es : List Event) :
    Along (track (step L cfg) (Tally.count L cfg)) (Paced L cfg)
        (⟨0, 0⟩, ⟨fs, Inner.new Key clock⟩) es ↔
      Along (track (step L cfg) (Tally.count L cfg)) (Regular L cfg)
        (⟨0, 0⟩, ⟨fs, Inner.new Key clock⟩) es := by
  have hstart : Counted (⟨0, 0⟩, (⟨fs, Inner.new Key clock⟩ : World Key)) := rfl
  have hstep : ∀ x e y, Counted x → Regular L cfg x e →
      track (step L cfg) (Tally.count L cfg) x e = some y → Counted y := by
    intro x e y hx hreg hy
    obtain ⟨w', hw', rfl⟩ := Option.map_eq_some_iff.mp hy
    exact counted_step hx hreg hw'
  constructor
  · intro h
    refine h.of_inv Counted (fun x e y hx hpaced => hstep x e y hx ((paced_iff hx e).mp hpaced))
      (fun x e hx hpaced => (paced_iff hx e).mp hpaced) hstart
  · intro h
    exact h.of_inv Counted hstep (fun x e hx hreg => (paced_iff hx e).mpr hreg) hstart

/-- A vault is created, and a rotate names another password. -/
def guessed : List Event :=
  [.request Sample.env "vault.create" (.obj [("password", .str "pw")]),
    .request Sample.env "vault.rotate"
      (.obj [("old_password", .str "guess"), ("new_password", .str "new")])]

theorem not_noFreeOracle : ¬ NoFreeOracle := by
  intro h
  have hpaced := h Sample.Key Sample.packages Sample.config (fun _ => none) 0 guessed
    Sample.library_ideal
  exact absurd hpaced (by decide +kernel)

end LvimKeyring.Backoff

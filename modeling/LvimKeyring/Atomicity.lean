import LvimKeyring.Sample
import LvimKeyring.Sealing

/-!
What a failed mutation leaves behind.

The vault file survives every failure, and so does the session when the operation itself
refuses. A save that fails comes too late for that: the session has already changed.
-/

namespace LvimKeyring.Atomicity

open Rpc Crypto Vault Server Result

variable {Key : Type}

def mutators : List String := ["secret.set", "secret.delete", "secret.rename", "secret.generate"]

/-- An error leaves the entry map and the bytes of the vault file as they were. -/
def FailsCleanly (cfg : Config) (w : World Key) (o : Outcome Key) : Prop :=
  (∃ e, o.reply = .error e) →
    o.world.inner.session.map (·.body.entries) = w.inner.session.map (·.body.entries) ∧
      o.world.fs cfg.vaultPath = w.fs cfg.vaultPath

/-- Every request that fails changes nothing. -/
def ChangesNothingOnError : Prop :=
  ∀ (Key : Type) (L : Packages Key) (cfg : Config) (env : Env) (w : World Key)
    (s t : Session Key) (method : String) (params : Json), w.inner.session = some s →
    Holds L.toLibrary w.fs cfg.vaultPath t → t.body.entries = s.body.entries →
    method ∈ mutators → FailsCleanly cfg w (dispatch L cfg env w method params)

/-- The operation goes through with another map, and that map cannot be written back. -/
def Strands (L : Packages Key) (cfg : Config) (env : Env) (s : Session Key) (op : Op) : Prop :=
  ∃ body r, op.run L.totp env.now s.body = .ok (body, r) ∧ body.entries ≠ s.body.entries ∧
    ((∃ e, render L.toLibrary { s with body } env.nonce = .error e) ∨ stops env.io cfg.vaultPath)

variable {L : Packages Key} {cfg : Config} {env : Env} {w : World Key} {s : Session Key}

/-! ### The parts of a request -/

/-- What the file holds survives a mutation that fails, and the session is the one before it
or the one it was to become. -/
lemma withSession_cleanly_iff (hs : w.inner.session = some s) (wait : Bool) {op : Op}
    (hop : op.reads = false) :
    FailsCleanly cfg w (withSession L cfg env wait op w) ↔ ¬ Strands L cfg env s op := by
  unfold FailsCleanly Strands withSession
  simp only [hs]
  cases hrun : op.run L.totp env.now s.body with
  | error e => simp [Outcome.of, hs]
  | ok br =>
    obtain ⟨body, r⟩ := br
    simp only [hop, Bool.false_eq_true, if_false, save]
    have hfail := write_fails_iff L.toLibrary env.io w.fs cfg.vaultPath { s with body } env.nonce
    cases hw : write L.toLibrary env.io w.fs cfg.vaultPath { s with body } env.nonce with
    | mk fs res =>
      rw [hw] at hfail
      cases res with
      | ok u =>
        have hno : ¬ ((∃ e, render L.toLibrary { s with body } env.nonce = .error e) ∨
            stops env.io cfg.vaultPath) := by
          rw [← hfail]
          rintro ⟨e, he⟩
          cases he
        constructor
        · rintro - ⟨b, r', hb, -, hbad⟩
          cases hb
          exact hno hbad
        · rintro - ⟨e, he⟩
          cases he
      -- The session is changed by now, and the file is not.
      | error e =>
        have hyes := hfail.mp ⟨e, rfl⟩
        have hfs : fs cfg.vaultPath = w.fs cfg.vaultPath := write_error hw
        constructor
        · rintro hclean ⟨b, r', hb, hne, -⟩
          cases hb
          have hbody := (hclean ⟨e, rfl⟩).1
          simp only [Outcome.of, World.withSession, Option.map_some] at hbody
          exact hne (Option.some.inj hbody)
        · intro hno _
          have heq : body.entries = s.body.entries := by
            by_contra hne
            exact hno ⟨body, r, rfl, hne, hyes⟩
          simp [Outcome.of, World.withSession, heq, hfs]

lemma prepare_mutator {random : ℕ → UInt8} {method : String} {params : Json} {call : Call}
    (hm : method ∈ mutators) (h : prepare random method params = .ok call) :
    (∃ wait op, call = .session wait op ∧ op.reads = false) ∨ ∃ value, call = .bare value := by
  rw [prepare_method h] at hm
  cases call with
  | bare value => exact .inr ⟨value, rfl⟩
  | session wait op =>
    refine .inl ⟨wait, op, rfl, ?_⟩
    cases op with
    | get | list | totp => simp [Call.method, mutators] at hm
    | _ => rfl
  | _ => simp [Call.method, mutators] at hm

lemma cleanly_touch {o : Outcome Key} :
    FailsCleanly cfg (touch env w) o ↔ FailsCleanly cfg w o := Iff.rfl

/-! ### The exact condition -/

/-- A mutation that fails changes nothing exactly when it does not change the map and then
fail to write it back. -/
theorem dispatch_cleanly_iff (L : Packages Key) (cfg : Config) (env : Env) (w : World Key)
    (s : Session Key) (method : String) (params : Json) (hs : w.inner.session = some s)
    (hm : method ∈ mutators) :
    FailsCleanly cfg w (dispatch L cfg env w method params) ↔
      ¬ ∃ wait op, prepare env.random method params = .ok (.session wait op) ∧
        Strands L cfg env s op := by
  have htouch : touches method = true := by
    simp only [mutators, List.mem_cons, List.not_mem_nil, or_false] at hm
    rcases hm with rfl | rfl | rfl | rfl <;> decide
  simp only [dispatch, htouch, if_true]
  cases hp : prepare env.random method params with
  | error e => simp [FailsCleanly, Outcome.of, touch]
  | ok call =>
    rcases prepare_mutator hm hp with ⟨wait, op, rfl, hop⟩ | ⟨value, rfl⟩
    · have htouched : (touch env w).inner.session = some s := hs
      have h : FailsCleanly cfg (touch env w) (withSession L cfg env wait op (touch env w)) ↔
          ¬ Strands L cfg env s op := withSession_cleanly_iff htouched wait hop
      rw [cleanly_touch] at h
      simp only [exec, h, Except.ok.injEq, Call.session.injEq]
      constructor
      · rintro hno ⟨_, _, ⟨rfl, rfl⟩, hyes⟩
        exact hno hyes
      · exact fun hno hyes => hno ⟨wait, op, ⟨rfl, rfl⟩, hyes⟩
    · simp [FailsCleanly, exec, Outcome.of]

/-! ### A failing rename -/

/-- A set whose new file cannot be renamed over the vault. -/
def failedSet : Outcome Sample.Key :=
  dispatch Sample.packages Sample.config
    { Sample.env with io := ⟨fun c => if c = .rename then some "disk full" else none, none⟩ }
    Sample.created "secret.set" (.obj [("name", .str "a"), ("value", .str "x")])

/-- The secret of a set answered with an error is served from the session. -/
theorem not_changesNothingOnError : ¬ ChangesNothingOnError := by
  intro h
  have hclean : FailsCleanly Sample.config Sample.created failedSet :=
    h Sample.Key Sample.packages Sample.config _ Sample.created Sample.session Sample.session
      "secret.set" _ Sample.created_session Sample.created_holds rfl (by decide)
  have herr : failedSet.reply = .error (.replace "disk full") := by decide +kernel
  have hset : failedSet.world.inner.session.map (·.body.entries)
      = some (.ofList [("a", newEntry "x" 7)]) := by
    decide +kernel
  have hbody := (hclean ⟨_, herr⟩).1
  rw [hset, Sample.created_session] at hbody
  revert hbody
  decide +kernel

/-- The condition, for the delete of a name that is not there. -/
theorem dispatch_cleanly_iff_created :
    FailsCleanly Sample.config Sample.created (dispatch Sample.packages Sample.config Sample.env
        Sample.created "secret.delete" (.obj [("name", .str "a")])) ↔
      ¬ ∃ wait op, prepare Sample.env.random "secret.delete" (.obj [("name", .str "a")])
          = .ok (.session wait op) ∧
        Strands Sample.packages Sample.config Sample.env Sample.session op :=
  dispatch_cleanly_iff Sample.packages Sample.config Sample.env Sample.created Sample.session
    "secret.delete" _ Sample.created_session (by decide)

end LvimKeyring.Atomicity

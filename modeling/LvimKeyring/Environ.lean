import LvimKeyring.Lib.Decimal
import LvimKeyring.Upkeep

/-!
The settings an editor gives to the agent it spawns.

They go through the environment, as text: the editor prints its numbers, and the agent reads them,
or takes a default of its own for a text it cannot read. The costs of the key derivation go on from
there into the header of the vault.
-/

namespace LvimKeyring.Environ

open Crypto Vault Server Transition Upkeep Decimal

/-! ### The editor -/

/-- The part of the editor's configuration that the agent is spawned with. -/
structure Settings where
  vaultPath : Option String
  memoryMib : Option ℤ
  iterations : Option ℤ
  parallelism : Option ℤ
  timeoutMinutes : Option ℤ
  lingerSeconds : Option ℤ
  persist : Bool

namespace Settings

variable (c : Settings)

/-- KiB -/
def memory : ℤ := c.memoryMib.getD 64 * 1024

def passes : ℤ := c.iterations.getD 3

def lanes : ℤ := c.parallelism.getD 4

/-- Seconds -/
def timeout : ℤ := c.timeoutMinutes.getD 15 * 60

def linger : ℤ := c.lingerSeconds.getD 0

/-- `data` is `stdpath("data")`. -/
def vault (data : String) : String :=
  match c.vaultPath.filter (· ≠ "") with
  | some path => path
  | none => data ++ "/lvim-keyring/keyring.vault"

end Settings

/-- A number without a fraction, as Lua prints it. -/
def tostring (n : ℤ) : String := general 14 n

def spawnEnv (c : Settings) (data : String) : List (String × String) :=
  [("LVIM_KEYRING_KDF_M", tostring c.memory),
    ("LVIM_KEYRING_KDF_T", tostring c.passes),
    ("LVIM_KEYRING_KDF_P", tostring c.lanes),
    ("LVIM_KEYRING_LOCK_TIMEOUT", tostring c.timeout),
    ("LVIM_KEYRING_LINGER", tostring c.linger),
    ("LVIM_KEYRING_PERSIST", if c.persist then "1" else "0"),
    ("LVIM_KEYRING_VAULT", c.vault data)]

abbrev Environment := String → Option String

/-- The environment of a job: that of the editor, with some variables set. -/
def jobEnv (outer : Environment) (env : List (String × String)) : Environment :=
  fun key => (env.lookup key).or (outer key)

/-! ### The agent -/

/-- `Path::join` -/
def join (base path : String) : String :=
  if path.toList.head? = some '/' then path
  else if base = "" ∨ base.toList.getLast? = some '/' then base ++ path
  else base ++ "/" ++ path

def defaultVaultPath (env : Environment) : String :=
  let base := (env "XDG_DATA_HOME").getD (join ((env "HOME").getD ".") ".local/share")
  join (join (join base "nvim") "lvim-keyring") "keyring.vault"

def envU32 (env : Environment) (key : String) (default : UInt32) : UInt32 :=
  (((env key).bind (unsigned (2 ^ 32 - 1))).map UInt32.ofNat).getD default

def envU64 (env : Environment) (key : String) (default : ℕ) : ℕ :=
  ((env key).bind (unsigned (2 ^ 64 - 1))).getD default

def configFromEnv (env : Environment) : Config where
  vaultPath := (env "LVIM_KEYRING_VAULT").getD (defaultVaultPath env)
  kdf :=
    ⟨envU32 env "LVIM_KEYRING_KDF_M" KdfParams.default.mCost,
      envU32 env "LVIM_KEYRING_KDF_T" KdfParams.default.tCost,
      envU32 env "LVIM_KEYRING_KDF_P" KdfParams.default.pCost⟩
  lockTimeout := envU64 env "LVIM_KEYRING_LOCK_TIMEOUT" (15 * 60)
  linger := envU64 env "LVIM_KEYRING_LINGER" 0
  persist := env "LVIM_KEYRING_PERSIST" = some "1"

/-- The configuration of an agent that an editor has spawned. -/
def spawned (outer : Environment) (c : Settings) (data : String) : Config :=
  configFromEnv (jobEnv outer (spawnEnv c data))

/-! ### What is carried over -/

/-- The text of a number can be read. -/
def Readable (limit : ℕ) (n : ℤ) : Prop := 0 ≤ n ∧ n ≤ limit ∧ n < 10 ^ 14

instance (limit : ℕ) (n : ℤ) : Decidable (Readable limit n) :=
  inferInstanceAs (Decidable (_ ∧ _ ∧ _))

lemma unsigned_tostring (limit : ℕ) (n : ℤ) :
    unsigned limit (tostring n) = if Readable limit n then some n.toNat else none :=
  unsigned_general limit 14 n

variable {outer env : Environment} {key : String} {n : ℤ}

lemma envU32_tostring (default : UInt32) (h : env key = some (tostring n)) :
    (envU32 env key default).toNat =
      if Readable (2 ^ 32 - 1) n then n.toNat else default.toNat := by
  rw [envU32, h, Option.bind_some, unsigned_tostring]
  by_cases hn : Readable (2 ^ 32 - 1) n
  · rw [if_pos hn, if_pos hn, Option.map_some, Option.getD_some]
    obtain ⟨hzero, hmax, -⟩ := hn
    have hlt : n.toNat < UInt32.size := (Int.toNat_lt hzero).mpr (by rw [UInt32.size]; omega)
    exact UInt32.toNat_ofNat_of_lt' hlt
  · rw [if_neg hn, if_neg hn, Option.map_none, Option.getD_none]

lemma envU64_tostring (default : ℕ) (h : env key = some (tostring n)) :
    envU64 env key default = if Readable (2 ^ 64 - 1) n then n.toNat else default := by
  rw [envU64, h, Option.bind_some, unsigned_tostring]
  by_cases hn : Readable (2 ^ 64 - 1) n
  · rw [if_pos hn, if_pos hn, Option.getD_some]
  · rw [if_neg hn, if_neg hn, Option.getD_none]

lemma carried_iff {limit default got : ℕ} (hdefault : Readable limit default)
    (hgot : got = if Readable limit n then n.toNat else default) :
    (got : ℤ) = n ↔ Readable limit n := by
  by_cases hn : Readable limit n
  · rw [hgot, if_pos hn]
    exact iff_of_true (Int.toNat_of_nonneg hn.1) hn
  · rw [hgot, if_neg hn]
    exact iff_of_false (fun heq => hn (heq ▸ hdefault)) hn

/-- The costs are the ones asked for. -/
structure Costs (c : Settings) (p : KdfParams) : Prop where
  memory : (p.mCost.toNat : ℤ) = c.memory
  passes : (p.tCost.toNat : ℤ) = c.passes
  lanes : (p.pCost.toNat : ℤ) = c.lanes

/-- The costs that an agent can be asked for: memory below 4 TiB, passes and lanes of 32 bits. -/
structure FitCosts (c : Settings) : Prop where
  memory : 0 ≤ c.memory ∧ c.memory < 2 ^ 32
  passes : 0 ≤ c.passes ∧ c.passes < 2 ^ 32
  lanes : 0 ≤ c.lanes ∧ c.lanes < 2 ^ 32

/-- The agent runs with the settings of the editor. -/
structure Carries (c : Settings) (data : String) (cfg : Config) : Prop where
  vaultPath : cfg.vaultPath = c.vault data
  costs : Costs c cfg.kdf
  timeout : (cfg.lockTimeout : ℤ) = c.timeout
  linger : (cfg.linger : ℤ) = c.linger
  persist : cfg.persist = c.persist

/-- Numbers that an agent can be given: times are printed in full up to 14 digits. -/
structure Fits (c : Settings) : Prop where
  costs : FitCosts c
  timeout : 0 ≤ c.timeout ∧ c.timeout < 10 ^ 14
  linger : 0 ≤ c.linger ∧ c.linger < 10 ^ 14

lemma spawned_vaultPath (c : Settings) (data : String) :
    (spawned outer c data).vaultPath = c.vault data := rfl

lemma spawned_persist (c : Settings) (data : String) :
    (spawned outer c data).persist = c.persist := by
  have hpersist : jobEnv outer (spawnEnv c data) "LVIM_KEYRING_PERSIST" =
      some (if c.persist then "1" else "0") := rfl
  rw [spawned, configFromEnv, hpersist]
  cases c.persist <;> rfl

lemma readable_u32 : Readable (2 ^ 32 - 1) n ↔ 0 ≤ n ∧ n < 2 ^ 32 := by
  unfold Readable
  omega

lemma readable_u64 : Readable (2 ^ 64 - 1) n ↔ 0 ≤ n ∧ n < 10 ^ 14 := by
  unfold Readable
  omega

lemma costs_iff (c : Settings) (data : String) :
    Costs c (spawned outer c data).kdf ↔ FitCosts c := by
  have hm : jobEnv outer (spawnEnv c data) "LVIM_KEYRING_KDF_M" = some (tostring c.memory) := rfl
  have ht : jobEnv outer (spawnEnv c data) "LVIM_KEYRING_KDF_T" = some (tostring c.passes) := rfl
  have hp : jobEnv outer (spawnEnv c data) "LVIM_KEYRING_KDF_P" = some (tostring c.lanes) := rfl
  have hmemory := carried_iff (by decide) (envU32_tostring KdfParams.default.mCost hm)
  have hpasses := carried_iff (by decide) (envU32_tostring KdfParams.default.tCost ht)
  have hlanes := carried_iff (by decide) (envU32_tostring KdfParams.default.pCost hp)
  rw [readable_u32] at hmemory hpasses hlanes
  exact ⟨fun h => ⟨hmemory.mp h.memory, hpasses.mp h.passes, hlanes.mp h.lanes⟩,
    fun h => ⟨hmemory.mpr h.memory, hpasses.mpr h.passes, hlanes.mpr h.lanes⟩⟩

/-- An agent runs with the settings of the editor that has spawned it, whatever else is in its
environment, exactly when their numbers fit. -/
theorem carries_iff_fits (outer : Environment) (c : Settings) (data : String) :
    Carries c data (spawned outer c data) ↔ Fits c := by
  have ht :
      jobEnv outer (spawnEnv c data) "LVIM_KEYRING_LOCK_TIMEOUT" = some (tostring c.timeout) := rfl
  have hl : jobEnv outer (spawnEnv c data) "LVIM_KEYRING_LINGER" = some (tostring c.linger) := rfl
  have htimeout := carried_iff (by decide) (envU64_tostring (15 * 60) ht)
  have hlinger := carried_iff (by decide) (envU64_tostring 0 hl)
  rw [readable_u64] at htimeout hlinger
  constructor
  · intro h
    exact ⟨(costs_iff c data).mp h.costs, htimeout.mp h.timeout, hlinger.mp h.linger⟩
  · intro h
    exact ⟨spawned_vaultPath c data, (costs_iff c data).mpr h.costs, htimeout.mpr h.timeout,
      hlinger.mpr h.linger, spawned_persist c data⟩

/-! ### The socket -/

/-- A variable that is set, and not to nothing. -/
def filled (o : Option String) : Option String := o.filter (· ≠ "")

def inRuntimeDir (runtime : String) : String := runtime ++ "/lvim-keyring/agent.sock"

/-- `M.socket_path` of the editor. -/
def socketPath (configured : Option String) (env : Environment) (uid : ℕ) : String :=
  match filled configured, filled (env "XDG_RUNTIME_DIR") with
  | some path, _ => path
  | none, some runtime => inRuntimeDir runtime
  | none, none => "/tmp/lvim-keyring-" ++ toString uid ++ "/agent.sock"

/-- `socket_path` of the git helper. -/
def helperSocketPath (env : Environment) : Option String :=
  match filled (env "LVIM_KEYRING_SOCK") with
  | some path => some path
  | none => (filled (env "XDG_RUNTIME_DIR")).map inRuntimeDir

/-- In the editor's own environment the git helper finds its agent when it is told where, or when
neither is told and there is a runtime directory: it has nothing for the place under `/tmp`. -/
theorem helper_finds_iff (configured : Option String) (env : Environment) (uid : ℕ) :
    helperSocketPath env = some (socketPath configured env uid) ↔
      filled (env "LVIM_KEYRING_SOCK") = some (socketPath configured env uid) ∨
        filled (env "LVIM_KEYRING_SOCK") = none ∧ ∃ runtime,
          filled (env "XDG_RUNTIME_DIR") = some runtime ∧
            ∀ path, filled configured = some path → path = inRuntimeDir runtime := by
  unfold helperSocketPath socketPath
  cases filled (env "LVIM_KEYRING_SOCK") <;> cases filled configured <;>
    cases filled (env "XDG_RUNTIME_DIR") <;> simp [eq_comm]

/-! ### The header of the vault -/

variable {Key : Type}

/-- The costs are those of a vault there was, or those the agent is configured with, which a key
could be derived with. -/
def Priced (L : Packages Key) (cfg : Config) (fs : FileSystem) (_ : Seen)
    (s : Session Key) : Prop :=
  (∃ s₀, Holds L.toLibrary fs cfg.vaultPath s₀ ∧ s.params = s₀.params) ∨
    s.params = cfg.kdf ∧ cfg.kdf.validate = .ok ()

lemma priced_lasting (L : Packages Key) (cfg : Config) (fs : FileSystem) :
    Lasting L cfg (fun _ _ => True) (Priced L cfg fs) where
  stands _ := trivial
  later _ h := h
  created _ hkey := .inr ⟨rfl, (deriveKey_eq_ok.mp hkey).1⟩
  rotated _ _ hkey := .inr ⟨rfl, (deriveKey_eq_ok.mp hkey).1⟩
  run _ h _ := h

lemma validate_eq_ok {p : KdfParams} :
    p.validate = .ok () ↔ 8 ≤ p.mCost ∧ 1 ≤ p.tCost ∧ 1 ≤ p.pCost := by
  unfold KdfParams.validate
  split
  · next h =>
    simp only [reduceCtorEq, false_iff, not_and_or, UInt32.not_le]
    exact h
  · next h =>
    simp only [not_or, UInt32.not_lt] at h
    simp [h]

/-- In every run of an agent that an editor has spawned, a session and what the vault file holds
have the costs the editor has asked for, exactly when an agent can be asked for them; unless they
are those of a vault that was there at the start. -/
theorem costs_as_configured (L : Packages Key) (hL : L.toLibrary.Ideal) (outer : Environment)
    (c : Settings) (data : String) (fs : FileSystem) (clock : ℕ) (as : List Daemon.Action)
    (d : Daemon.State Key)
    (hrun : run (Daemon.step L (spawned outer c data)) (Daemon.start Key fs clock) as = some d)
    {s : Session Key}
    (hs : d.shared.session = some s ∨ Holds L.toLibrary d.shared.world.fs (c.vault data) s)
    (hnew : ∀ s₀, Holds L.toLibrary fs (c.vault data) s₀ → s.params ≠ s₀.params) :
    8 ≤ s.params.mCost ∧ 1 ≤ s.params.tCost ∧ 1 ≤ s.params.pCost ∧
      (Costs c s.params ↔ FitCosts c) := by
  have hpath : (spawned outer c data).vaultPath = c.vault data := spawned_vaultPath c data
  have hstart : Kept L (spawned outer c data) (Priced L (spawned outer c data) fs) ⟨0, []⟩
      (Daemon.start Key fs clock) :=
    ⟨⟨fun s hs => (by cases hs), fun s hs => .inl ⟨s, hs, rfl⟩⟩,
      fun _ => soundPc_of_none rfl rfl rfl⟩
  have hclock : Along (track (Daemon.step L (spawned outer c data)) Seen.update)
      (Onward fun _ _ => True) (⟨0, []⟩, Daemon.start Key fs clock) as :=
    along_of_forall fun a _ x => by cases a <;> trivial
  have hend := kept_run hL (priced_lasting L _ fs) hstart hclock hrun
  have hpriced : Priced L (spawned outer c data) fs ⟨0, []⟩ s := by
    rcases hs with hsession | hfile
    · exact hend.shared.session s hsession
    · exact hend.shared.file s (hpath ▸ hfile)
  rcases hpriced with ⟨s₀, hs₀, heq⟩ | ⟨heq, hvalid⟩
  · exact absurd heq (hnew s₀ (hpath ▸ hs₀))
  · obtain ⟨hm, ht, hp⟩ := validate_eq_ok.mp hvalid
    rw [heq]
    exact ⟨hm, ht, hp, costs_iff c data⟩

/-- An editor that asks for a quarter of the memory, and for a number of passes that is none. -/
def modest : Settings := ⟨none, some 16, some (-1), none, some 0, none, false⟩

/-- A vault is created, and its password changed. -/
def rotating : List Daemon.Action :=
  .connect :: (Sample.served 0 "vault.create" [("password", .str "pw")] 8 ++
    Sample.served 0 "vault.rotate" [("new_password", .str "new"), ("old_password", .str "pw")] 8)

theorem costs_as_configured_modest : ∃ d s,
    run (Daemon.step Sample.packages (spawned (fun _ => none) modest "/data"))
        (Daemon.start Sample.Key (fun _ => none) 0) rotating = some d ∧
      d.shared.session = some s ∧ s.params = ⟨16384, 3, 4⟩ ∧
        8 ≤ s.params.mCost ∧ 1 ≤ s.params.tCost ∧ 1 ≤ s.params.pCost ∧
          (Costs modest s.params ↔ FitCosts modest) := by
  have hends : (run (Daemon.step Sample.packages (spawned (fun _ => none) modest "/data"))
      (Daemon.start Sample.Key (fun _ => none) 0) rotating).any
      (fun d => d.shared.session.any fun s => decide (s.params = ⟨16384, 3, 4⟩)) = true := by
    decide +kernel
  obtain ⟨d, hrun, hd⟩ := (Option.any_eq_true _ _).mp hends
  obtain ⟨s, hs, hparams⟩ := (Option.any_eq_true _ _).mp hd
  have hnone : ∀ s₀, Holds Sample.packages.toLibrary (fun _ => none) (modest.vault "/data") s₀ →
      s.params ≠ s₀.params := by
    intro s₀ hs₀
    have hfile := hs₀.fileExists
    cases hfile
  exact ⟨d, s, hrun, hs, of_decide_eq_true hparams, costs_as_configured Sample.packages
    Sample.library_ideal (fun _ => none) modest "/data" (fun _ => none) 0 rotating d hrun
      (.inl hs) hnone⟩

end LvimKeyring.Environ

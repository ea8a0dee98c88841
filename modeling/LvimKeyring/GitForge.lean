import LvimKeyring.GitStore

/-!
The token of a forge, used by git.

`get` finds the token under the forge's name, and git gives it back to `store`, which keeps a copy
under git's own name. From then on `get` answers with the copy, so a later token of the forge
reaches git only if the copy is told.
-/

namespace LvimKeyring.GitCredential

open Rpc Crypto Vault Server Transition

variable {Key : Type} {L : Packages Key} {cfg : Config} {serde : DecodeError → String} {env : Env}
variable {w : World Key} {x x' : State Key} {host : String}

/-! ### Authentications -/

/-- Git stores what some `get` has returned: the password it printed, and the user name it printed
or was given. -/
def returned (x : State Key) (attrs : Attrs) : Bool :=
  x.jobs.any fun j =>
    match j.script with
    | .done (some (value, user)) => j.op = "get" ∧ attrs "host" = j.attrs "host" ∧
        attrs "password" = some value ∧ attrs "username" = (j.attrs "username").or user
    | _ => false

/-- A `set` of the forge's token, or of its meta alone. -/
def setsForge (host : String) (params : Json) : Bool :=
  match Params.SetParam.fromValue params with
  | .ok p => p.name = forgeName host
  | .error _ => false

/-- The steps of authentications, with updates of the token between them. -/
def authenticates (host : String) (x : State Key) : Action → Bool
  | .call op stdin => op = "get" ∨ op = "store" ∧ returned x (readAttrs stdin) = true
  | .rpc _ _ reached => reached
  | .request _ method params => method = "secret.set" ∧ setsForge host params = true
  | .tick _ => false

/-- What is asked of the token: `get` answers with the one the forge has now. -/
def FollowsForge (L : Packages Key) (cfg : Config) (serde : DecodeError → String) : Prop :=
  ∀ w host as x k j env x' j' found, unlocked w = true → entry w (gitName host) = none →
    Along (step L cfg serde) (fun x a => authenticates host x a = true) (start w) as →
    Transition.run (step L cfg serde) (start w) as = some x →
    x.jobs[k]? = some j → j.op = "get" → j.attrs "host" = some host →
    step L cfg serde x (.rpc k env true) = some x' → x'.jobs[k]? = some j' →
    j'.script = .done found → found.map Prod.fst = valueOf x.world (forgeName host)

/-! ### The copy -/

lemma set_cases (params : Json) :
    (dispatch L cfg env w "secret.set" params).world = touch env w ∨
      ∃ p, Params.SetParam.fromValue params = .ok p ∧
        (dispatch L cfg env w "secret.set" params).world =
          (Server.withSession L cfg env p.wait (.set p) (touch env w)).world := by
  have hprepare : prepare env.random "secret.set" params = prepareSet params := rfl
  cases hp : Params.SetParam.fromValue params with
  | error e =>
    left
    unfold dispatch
    rw [hprepare, prepareSet, hp]
    rfl
  | ok p =>
    by_cases hblank : isBlank p.name = true
    · left
      unfold dispatch
      rw [hprepare, prepareSet, hp]
      simp [decoded, Except.mapError, bind, Except.bind, hblank, Outcome.of, touches]
    · right
      refine ⟨p, rfl, ?_⟩
      unfold dispatch
      rw [hprepare, prepareSet, hp]
      simp [decoded, Except.mapError, bind, Except.bind, hblank, exec, touches]

lemma valueOf_setRequest (params : Json) (h : unlocked w = true) :
    unlocked (dispatch L cfg env w "secret.set" params).world = true ∧
      ((∀ n, valueOf (dispatch L cfg env w "secret.set" params).world n = valueOf w n) ∨
        ∃ p, Params.SetParam.fromValue params = .ok p ∧
          ∀ n, valueOf (dispatch L cfg env w "secret.set" params).world n =
            if n = p.name then p.value.or (valueOf w n) else valueOf w n) := by
  have htouch : unlocked (touch env w) = true := h
  have hcases : (dispatch L cfg env w "secret.set" params).world = touch env w ∨
      ∃ p, Params.SetParam.fromValue params = .ok p ∧
        (dispatch L cfg env w "secret.set" params).world =
          (Server.withSession L cfg env p.wait (.set p) (touch env w)).world := set_cases params
  rcases hcases with hworld | ⟨p, hp, hworld⟩
  · rw [hworld]
    exact ⟨htouch, .inl fun n => valueOf_touch n⟩
  · rw [hworld]
    exact ⟨(valueOf_set p htouch).1, .inr ⟨p, hp, (valueOf_set p htouch).2⟩⟩

/-- The token does not change between a `get` and the `store` of what it returned, and no more
once there is a copy. -/
def steady (host : String) (x : State Key) : Action → Bool
  | .rpc k _ _ => (x.jobs[k]?).all fun j => j.op = "store" ∧ j.attrs "host" = some host →
      j.attrs "password" = valueOf x.world (forgeName host)
  | .request _ _ params =>
    match Params.SetParam.fromValue params with
    | .ok p => p.value = none ∨ valueOf x.world (gitName host) = none ∨
        p.value = valueOf x.world (forgeName host)
    | .error _ => true
  | _ => true

/-- The copy, when there is one, has the token. -/
structure Copied (host : String) (x : State Key) : Prop where
  unlocked : unlocked x.world = true
  staged : Staged x
  erasing : ¬ Erasing x
  copy : valueOf x.world (gitName host) = none ∨
    valueOf x.world (gitName host) = valueOf x.world (forgeName host)

lemma copied_rpc {k : ℕ} (h : Copied host x) (hs : steady host x (.rpc k env true) = true)
    (hstep : step L cfg serde x (.rpc k env true) = some x') : Copied host x' := by
  have hstaged := staged_step h.staged hstep
  have herasing := not_erasing_rpc h.erasing hstep
  obtain ⟨j, hj, -⟩ := Option.bind_eq_some_iff.mp hstep
  obtain ⟨hu, hasked⟩ := asked_of_step h.staged h.erasing h.unlocked hj hstep
  refine ⟨hu, hstaged, herasing, ?_⟩
  cases hasked with
  | get hop hstored hvalue =>
    rw [hvalue, hvalue]
    exact h.copy
  | store hostname password hop hhost hpass hstored hvalue =>
    have hforge : valueOf x'.world (forgeName host) = valueOf x.world (forgeName host) := by
      rw [hvalue, if_neg (gitName_ne_forgeName _ _).symm]
    rw [hforge, hvalue]
    by_cases hsame : hostname = host
    · subst hsame
      have hnow : j.attrs "password" = valueOf x.world (forgeName hostname) := by
        simpa [steady, hj, hop, hhost] using hs
      right
      rw [if_pos rfl, ← hnow, hpass]
    · have hne : gitName host ≠ gitName hostname := fun heq => hsame (gitName_inj.mp heq).symm
      rw [if_neg hne]
      exact h.copy

lemma copied_request {params : Json} (h : Copied host x) (hforge : setsForge host params = true)
    (hs : steady host x (.request env "secret.set" params) = true)
    (hstep : step L cfg serde x (.request env "secret.set" params) = some x') : Copied host x' := by
  have hstaged := staged_step h.staged hstep
  cases hstep
  obtain ⟨hu, hvalue | ⟨p, hp, hvalue⟩⟩ := valueOf_setRequest params h.unlocked
  · refine ⟨hu, hstaged, h.erasing, ?_⟩
    rw [hvalue, hvalue]
    exact h.copy
  · have hname : p.name = forgeName host := by simpa [setsForge, hp] using hforge
    have hsteady : p.value = none ∨ valueOf x.world (gitName host) = none ∨
        p.value = valueOf x.world (forgeName host) := by simpa [steady, hp] using hs
    refine ⟨hu, hstaged, h.erasing, ?_⟩
    rw [hvalue, hvalue, hname, if_neg (gitName_ne_forgeName host host), if_pos rfl]
    rcases hsteady with hnone | hnone | hsame
    · rw [hnone]
      exact h.copy
    · exact .inl hnone
    · rw [hsame, Option.or_self]
      exact h.copy

lemma copied_step {a : Action} (h : Copied host x)
    (ha : authenticates host x a = true ∧ steady host x a = true)
    (hstep : step L cfg serde x a = some x') : Copied host x' := by
  obtain ⟨hallowed, hs⟩ := ha
  cases a with
  | call op stdin =>
    have hop : op = "get" ∨ op = "store" := by
      rcases of_decide_eq_true hallowed with hget | hstore
      · exact .inl hget
      · exact .inr hstore.1
    have hstaged := staged_step h.staged hstep
    have herasing := not_erasing_call h.erasing hop hstep
    cases hstep
    exact ⟨h.unlocked, hstaged, herasing, h.copy⟩
  | rpc k env reached =>
    cases hallowed
    exact copied_rpc h hs hstep
  | request env method params =>
    obtain ⟨rfl, hforge⟩ := of_decide_eq_true hallowed
    exact copied_request h hforge hs hstep
  | tick clock => cases hallowed

/-- As long as the token stays what git has a copy of, `get` answers with it. -/
theorem token_of_steady {as : List Action} {k : ℕ} {j j' : Job} {found : Found}
    (hu : unlocked w = true) (hgit : entry w (gitName host) = none)
    (hG : Along (step L cfg serde)
      (fun x a => authenticates host x a = true ∧ steady host x a = true) (start w) as)
    (hrun : Transition.run (step L cfg serde) (start w) as = some x) (hj : x.jobs[k]? = some j)
    (hop : j.op = "get") (hhost : j.attrs "host" = some host)
    (hstep : step L cfg serde x (.rpc k env true) = some x') (hj' : x'.jobs[k]? = some j')
    (hfound : j'.script = .done found) :
    found.map Prod.fst = valueOf x.world (forgeName host) := by
  have hstart : Copied host (start w) := by
    refine ⟨hu, fun j hj => ?_, fun ⟨j, hj, _⟩ => ?_, .inl ?_⟩
    · cases hj
    · cases hj
    · rw [valueOf, show (start w).world = w from rfl, hgit]
      rfl
  have hcopied : Copied host x := run_inv (fun _ _ _ h ha ht => copied_step h ha ht) hstart hG hrun
  rcases found_of_step hcopied.staged hj hop hhost hstep hj' hfound with ⟨e, he, rfl⟩ | rfl
  · have hcopy : valueOf x.world (gitName host) = some e.value := by rw [valueOf, he]; rfl
    rcases hcopied.copy with hnone | hsame
    · rw [hnone] at hcopy
      cases hcopy
    · rw [← hsame, hcopy]
      rfl
  · rw [valueOf, Option.map_map]
    rfl

/-! ### A token that is replaced -/

def setToken (value : String) : Action :=
  .request Sample.env "secret.set" (.obj [("name", .str (forgeName "h")), ("value", .str value)])

/-- Git authenticates with the token, and comes again. -/
def authenticated : List Action :=
  [setToken "old", .call "get" "host=h\nusername=u\n", .rpc 0 Sample.env true,
    .rpc 0 Sample.env true, .call "store" "host=h\nusername=u\npassword=old\n",
    .rpc 1 Sample.env true, .call "get" "host=h\nusername=u\n"]

/-- In between, the token is replaced. -/
def replaced : List Action := authenticated ++ [setToken "new"]

/-- The end of the second `get`, with the token the forge has. -/
def secondGet (as : List Action) : Option (String × Found × Option String) :=
  (Transition.run sampleStep (start Sample.created) as).bind fun x =>
    (x.jobs[2]?).bind fun j => (sampleStep x (.rpc 2 Sample.env true)).bind fun x' =>
      (x'.jobs[2]?).bind fun j' =>
        match j.attrs "host", j'.script with
        | some "h", .done found => some (j.op, found, valueOf x.world (forgeName "h"))
        | _, _ => none

lemma secondGet_cases {as : List Action} {found : Found} {token : Option String}
    (h : secondGet as = some ("get", found, token)) : ∃ x j x' j',
    Transition.run sampleStep (start Sample.created) as = some x ∧ x.jobs[2]? = some j ∧
    j.op = "get" ∧ j.attrs "host" = some "h" ∧ sampleStep x (.rpc 2 Sample.env true) = some x' ∧
    x'.jobs[2]? = some j' ∧ j'.script = .done found ∧ valueOf x.world (forgeName "h") = token := by
  obtain ⟨x, hx, hrest⟩ := Option.bind_eq_some_iff.mp h
  obtain ⟨j, hj, hrest⟩ := Option.bind_eq_some_iff.mp hrest
  obtain ⟨x', hx', hrest⟩ := Option.bind_eq_some_iff.mp hrest
  obtain ⟨j', hj', hrest⟩ := Option.bind_eq_some_iff.mp hrest
  split at hrest
  · rename_i hhost hscript
    simp only [Option.some.injEq, Prod.mk.injEq] at hrest
    obtain ⟨hop, rfl, htoken⟩ := hrest
    exact ⟨x, j, x', j', hx, hj, hop, hhost, hx', hj', hscript, htoken⟩
  · cases hrest

lemma steady_authenticated :
    Along sampleStep (fun x a => authenticates "h" x a = true ∧ steady "h" x a = true)
      (start Sample.created) authenticated := by
  decide +kernel

theorem token_of_steady_authenticated : ∃ x,
    Transition.run sampleStep (start Sample.created) authenticated = some x ∧
    some "old" = valueOf x.world (forgeName "h") := by
  have hend : secondGet authenticated = some ("get", some ("old", some "u"), some "old") := by
    decide +kernel
  obtain ⟨x, j, x', j', hx, hj, hop, hhost, hx', hj', hfound, -⟩ := secondGet_cases hend
  exact ⟨x, hx, token_of_steady rfl (entry_created _) steady_authenticated hx hj hop hhost hx' hj'
    hfound⟩

theorem not_followsForge : ¬ FollowsForge Sample.packages Sample.config (fun _ => "") := by
  intro h
  have hend : secondGet replaced = some ("get", some ("old", some "u"), some "new") := by
    decide +kernel
  have hG : Along sampleStep (fun x a => authenticates "h" x a = true) (start Sample.created)
      replaced := by
    decide +kernel
  obtain ⟨x, j, x', j', hx, hj, hop, hhost, hx', hj', hfound, htoken⟩ := secondGet_cases hend
  have hfollows := h _ "h" _ x 2 j _ x' j' _ rfl (entry_created _) hG hx hj hop hhost hx' hj' hfound
  rw [htoken] at hfollows
  exact absurd hfollows (by decide)

end LvimKeyring.GitCredential

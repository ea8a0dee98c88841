import LvimKeyring.GitRuns

/-!
What `get` answers after `store`.

Every password git stores for a host is kept under one name, which `get` asks for first. So `get`
answers with what was stored for the host last, and no longer with the token of the forge once
something has been stored for its host.
-/

namespace LvimKeyring.GitCredential

open Rpc Crypto Vault Server Transition

variable {Key : Type} {L : Packages Key} {cfg : Config} {serde : DecodeError → String} {env : Env}
variable {w : World Key} {x x' : State Key} {host : String}

/-! ### Names -/

lemma gitName_inj {h h' : String} : gitName h = gitName h' ↔ h = h' := by
  refine ⟨fun heq => ?_, congrArg gitName⟩
  have hlist := congrArg String.toList heq
  simp only [gitName, String.toList_append] at hlist
  exact String.toList_injective (List.append_cancel_left hlist)

lemma gitName_ne_forgeName (h h' : String) : gitName h ≠ forgeName h' := by
  intro heq
  have hlist := congrArg String.toList heq
  simp [gitName, forgeName] at hlist

/-! ### The requests of `get` and `store` -/

/-- No call erases anything. -/
def Erasing (x : State Key) : Prop := ∃ j ∈ x.jobs, j.op = "erase"

lemma valueOf_touch (n : String) : valueOf (touch env w) n = valueOf w n := rfl

lemma valueOf_store (hostname password : String) (username : Option String)
    (h : unlocked w = true) :
    unlocked
      (dispatch L cfg env w "secret.set" (storeParams hostname password username)).world = true ∧
      ∀ n, valueOf
        (dispatch L cfg env w "secret.set" (storeParams hostname password username)).world n =
        if n = gitName hostname then some password else valueOf w n := by
  have htouch : unlocked (touch env w) = true := h
  rw [dispatch_store]
  obtain ⟨hu, hv⟩ := valueOf_set
    ⟨gitName hostname, some password, username.map fun u => ⟨some u, none, none, none, none⟩, false⟩
    htouch
  exact ⟨hu, hv⟩

/-- What the request of a call does to the wallet. -/
inductive Asked (x x' : State Key) (j : Job) : Prop
  | get (hop : j.op = "get") (hstored : x'.stored = x.stored)
    (hvalue : ∀ n, valueOf x'.world n = valueOf x.world n)
  | store (host password : String) (hop : j.op = "store") (hhost : j.attrs "host" = some host)
    (hpass : j.attrs "password" = some password) (hstored : x'.stored = x.stored ++ [j.attrs])
    (hvalue : ∀ n, valueOf x'.world n =
      if n = gitName host then some password else valueOf x.world n)

lemma asked_of_step {k : ℕ} {j : Job} (hs : Staged x) (he : ¬ Erasing x)
    (hu : unlocked x.world = true) (hj : x.jobs[k]? = some j)
    (hstep : step L cfg serde x (.rpc k env true) = some x') :
    unlocked x'.world = true ∧ Asked x x' j := by
  obtain ⟨j', hj', hask⟩ := Option.bind_eq_some_iff.mp hstep
  rw [hj] at hj'
  cases hj'
  obtain ⟨method, params, next, hscript, ⟨-, rfl⟩ | ⟨hfalse, -⟩⟩ := ask_cases hask
  · have hmem := List.mem_of_getElem? hj
    cases hs j hmem with
    | done found h =>
      rw [h] at hscript
      cases hscript
    | get hostname names hop hhost hnames h =>
      rw [h] at hscript
      cases names with
      | nil => cases hscript
      | cons name names =>
        cases hscript
        have hworld : (dispatch L cfg env x.world "secret.get" (nameParams name)).world
            = touch env x.world := by
          rw [dispatch_get]
          rfl
        rw [hworld]
        refine ⟨hu, .get hop ?_ fun n => rfl⟩
        rw [if_neg]
        rw [hop]
        decide
    | store hostname password hop hhost hpass h =>
      rw [h] at hscript
      cases hscript
      refine ⟨(valueOf_store hostname password (j.attrs "username") hu).1, ?_⟩
      exact .store hostname password hop hhost hpass (if_pos hop)
        (valueOf_store hostname password (j.attrs "username") hu).2
    | erase hostname hop hhost h => exact absurd ⟨j, hmem, hop⟩ he
  · cases hfalse

/-- What `get` ends with: the entry of the host, or else what the forge has. -/
lemma found_of_step {k : ℕ} {j j' : Job} {found : Found} (hs : Staged x) (hj : x.jobs[k]? = some j)
    (hop : j.op = "get") (hhost : j.attrs "host" = some host)
    (hstep : step L cfg serde x (.rpc k env true) = some x') (hj' : x'.jobs[k]? = some j')
    (hfound : j'.script = .done found) :
    (∃ e, entry x.world (gitName host) = some e ∧ found = some (e.value, e.user)) ∨
      found = (entry x.world (forgeName host)).map fun e => (e.value, e.user) := by
  obtain ⟨j₀, hj₀, hask⟩ := Option.bind_eq_some_iff.mp hstep
  rw [hj] at hj₀
  cases hj₀
  obtain ⟨method, params, next, hscript, ⟨-, rfl⟩ | ⟨hfalse, -⟩⟩ := ask_cases hask
  · have hlt : k < x.jobs.length := (List.getElem?_eq_some_iff.mp hj).1
    have hnext : next (some (answer serde (dispatch L cfg env x.world method params)))
        = .done found := by
      rw [List.getElem?_set_self hlt] at hj'
      cases hj'
      exact hfound
    cases hs j (List.mem_of_getElem? hj) with
    | done found' h =>
      rw [h] at hscript
      cases hscript
    | get hostname names hget hhost' hnames h =>
      rw [hhost] at hhost'
      cases hhost'
      rw [h] at hscript
      cases names with
      | nil => cases hscript
      | cons name names =>
        cases hscript
        simp only [answer_get] at hnext
        -- The names that are left are both, or the one of the forge.
        rcases List.suffix_cons_iff.mp hnames with hboth | hrest
        · cases hboth
          cases he : entry x.world (gitName host) with
          | none =>
            rw [he] at hnext
            cases hnext
          | some e =>
            rw [he] at hnext
            simp only [Option.map_some, credential_secret, Script.done.injEq] at hnext
            exact .inl ⟨e, rfl, hnext.symm⟩
        · rcases List.suffix_cons_iff.mp hrest with hforge | hnil
          · cases hforge
            right
            cases he : entry x.world (forgeName host) with
            | none =>
              rw [he] at hnext
              simp only [Option.map_none, lookupIn, Script.done.injEq] at hnext
              exact hnext.symm
            | some e =>
              rw [he] at hnext
              simp only [Option.map_some, credential_secret, Script.done.injEq] at hnext
              exact hnext.symm
          · cases List.suffix_nil.mp hnil
    | store hostname password hstore hhost' hpass h =>
      rw [hop] at hstore
      exact absurd hstore (by decide)
    | erase hostname herase hhost' h =>
      rw [hop] at herase
      exact absurd herase (by decide)
  · cases hfalse

/-! ### Several accounts on one host -/

/-- The password of the latest of these calls. -/
def latest (same : Attrs → Bool) (stored : List Attrs) : Option String :=
  (stored.reverse.find? same).bind (· "password")

def sameHost (host : String) (attrs : Attrs) : Bool := attrs "host" = some host

/-- What git keeps a password under. -/
def sameAccount (protocol host username : String) (attrs : Attrs) : Bool :=
  attrs "protocol" = some protocol ∧ sameHost host attrs = true ∧ attrs "username" = some username

/-- Git's calls of an agent that can be reached. -/
def storesAndGets : Action → Bool
  | .call op _ => op = "get" ∨ op = "store"
  | .rpc _ _ reached => reached
  | _ => false

/-- What is asked of `get`: it answers with a password of the account it was asked for. -/
def AnswersOwn (L : Packages Key) (cfg : Config) (serde : DecodeError → String) : Prop :=
  ∀ w as x k j env x' j' protocol host username value user, unlocked w = true →
    (∀ h, entry w (gitName h) = none ∧ entry w (forgeName h) = none) →
    (∀ a ∈ as, storesAndGets a = true) →
    Transition.run (step L cfg serde) (start w) as = some x →
    x.jobs[k]? = some j → j.op = "get" → j.attrs "protocol" = some protocol →
    j.attrs "host" = some host → j.attrs "username" = some username →
    step L cfg serde x (.rpc k env true) = some x' → x'.jobs[k]? = some j' →
    j'.script = .done (some (value, user)) →
    latest (sameAccount protocol host username) x.stored = some value

lemma latest_append (same : Attrs → Bool) (stored : List Attrs) (attrs : Attrs) :
    latest same (stored ++ [attrs]) =
      if same attrs then attrs "password" else latest same stored := by
  unfold latest
  rw [List.reverse_append, List.reverse_singleton, List.singleton_append, List.find?_cons]
  cases same attrs <;> rfl

/-- The wallet has for a host what was stored last, and its forge has nothing. -/
structure Keeps (host : String) (x : State Key) : Prop where
  unlocked : unlocked x.world = true
  staged : Staged x
  erasing : ¬ Erasing x
  git : valueOf x.world (gitName host) = latest (sameHost host) x.stored
  forge : valueOf x.world (forgeName host) = none

lemma not_erasing_call {op stdin : String} (h : ¬ Erasing x) (hop : op = "get" ∨ op = "store")
    (hstep : step L cfg serde x (.call op stdin) = some x') : ¬ Erasing x' := by
  cases hstep
  rintro ⟨j, hj, herase⟩
  rcases List.mem_append.mp hj with hj | hj
  · exact h ⟨j, hj, herase⟩
  · rw [List.mem_singleton.mp hj] at herase
    rcases hop with rfl | rfl
    · exact absurd (show "get" = "erase" from herase) (by decide)
    · exact absurd (show "store" = "erase" from herase) (by decide)

lemma not_erasing_rpc {k : ℕ} {reached : Bool} (h : ¬ Erasing x)
    (hstep : step L cfg serde x (.rpc k env reached) = some x') : ¬ Erasing x' := by
  obtain ⟨j, hj, hask⟩ := Option.bind_eq_some_iff.mp hstep
  have hold : j.op ≠ "erase" := fun herase => h ⟨j, List.mem_of_getElem? hj, herase⟩
  obtain ⟨method, params, next, -, ⟨-, rfl⟩ | ⟨-, rfl⟩⟩ := ask_cases hask <;>
  · rintro ⟨j', hj', herase⟩
    rcases List.mem_or_eq_of_mem_set hj' with hmem | rfl
    · exact h ⟨j', hmem, herase⟩
    · exact hold herase

lemma keeps_step {a : Action} (h : Keeps host x) (ha : storesAndGets a = true)
    (hstep : step L cfg serde x a = some x') : Keeps host x' := by
  have hstaged := staged_step h.staged hstep
  cases a with
  | call op stdin =>
    have herasing := not_erasing_call h.erasing (of_decide_eq_true ha) hstep
    cases hstep
    exact ⟨h.unlocked, hstaged, herasing, h.git, h.forge⟩
  | rpc k env reached =>
    have herasing := not_erasing_rpc h.erasing hstep
    cases ha
    obtain ⟨j, hj, -⟩ := Option.bind_eq_some_iff.mp hstep
    obtain ⟨hu, hasked⟩ := asked_of_step h.staged h.erasing h.unlocked hj hstep
    cases hasked with
    | get hop hstored hvalue =>
      refine ⟨hu, hstaged, herasing, ?_, ?_⟩
      · rw [hvalue, hstored, h.git]
      · rw [hvalue, h.forge]
    | store hostname password hop hhost hpass hstored hvalue =>
      refine ⟨hu, hstaged, herasing, ?_, ?_⟩
      · rw [hvalue, hstored, latest_append, h.git]
        by_cases hsame : hostname = host
        · simp [hsame, sameHost, hhost, hpass]
        · have hne : gitName host ≠ gitName hostname := fun heq => hsame (gitName_inj.mp heq).symm
          simp [hsame, hne, sameHost, hhost]
      · rw [hvalue, if_neg (gitName_ne_forgeName _ _).symm, h.forge]
  | request env method params => cases ha
  | tick clock => cases ha

/-- `get` prints the password that was stored for its host last, whatever the protocol and the
user name it was stored with. -/
theorem latest_of_host {as : List Action} {k : ℕ} {j j' : Job} {value : String}
    {user : Option String} (hu : unlocked w = true) (hgit : entry w (gitName host) = none)
    (hforge : entry w (forgeName host) = none) (has : ∀ a ∈ as, storesAndGets a = true)
    (hrun : Transition.run (step L cfg serde) (start w) as = some x) (hj : x.jobs[k]? = some j)
    (hop : j.op = "get") (hhost : j.attrs "host" = some host)
    (hstep : step L cfg serde x (.rpc k env true) = some x') (hj' : x'.jobs[k]? = some j')
    (hfound : j'.script = .done (some (value, user))) :
    latest (sameHost host) x.stored = some value := by
  have hstart : Keeps host (start w) := by
    refine ⟨hu, fun j hj => ?_, fun ⟨j, hj, _⟩ => ?_, ?_, ?_⟩
    · cases hj
    · cases hj
    · rw [valueOf, show (start w).world = w from rfl, hgit]
      rfl
    · rw [valueOf, show (start w).world = w from rfl, hforge]
      rfl
  have hkeeps : Keeps host x :=
    run_inv (fun _ _ _ h ha ht => keeps_step h ha ht) hstart
      (along_of_forall fun a ha _ => has a ha) hrun
  rcases found_of_step hkeeps.staged hj hop hhost hstep hj' hfound with ⟨e, he, hvalue⟩ | hvalue
  · cases hvalue
    rw [← hkeeps.git, valueOf, he]
    rfl
  · have hnone : entry x.world (forgeName host) = none := Option.map_eq_none_iff.mp hkeeps.forge
    rw [hnone] at hvalue
    cases hvalue

/-- One user's password is stored, and `get` is asked for another user. -/
def shared : List Action :=
  [.call "store" "protocol=https\nhost=h\nusername=alice\npassword=x\n", .rpc 0 Sample.env true,
    .call "get" "protocol=https\nhost=h\nusername=bob\n"]

lemma entry_created (name : String) : entry Sample.created name = none := by
  have hbody : (entry Sample.created) = fun n => (∅ : Std.ExtTreeMap String Entry)[n]? := rfl
  rw [hbody]
  simp

/-- What a script that is over has found. -/
def ended? : Script → Option Found
  | .done found => some found
  | .ask _ _ _ => none

lemma run_shared : ∃ x j x' j',
    Transition.run sampleStep (start Sample.created) shared = some x ∧ x.jobs[1]? = some j ∧
    j.op = "get" ∧ j.attrs "protocol" = some "https" ∧ j.attrs "host" = some "h" ∧
    j.attrs "username" = some "bob" ∧ sampleStep x (.rpc 1 Sample.env true) = some x' ∧
    x'.jobs[1]? = some j' ∧ j'.script = .done (some ("x", some "alice")) ∧
    latest (sameAccount "https" "h" "bob") x.stored = none := by
  have hend : (Transition.run sampleStep (start Sample.created) shared).bind (fun x =>
      (x.jobs[1]?).bind fun j => (sampleStep x (.rpc 1 Sample.env true)).bind fun x' =>
        (x'.jobs[1]?).bind fun j' => (ended? j'.script).map fun found =>
          (j.op, ["protocol", "host", "username"].map j.attrs, found,
            latest (sameAccount "https" "h" "bob") x.stored)) =
      some ("get", [some "https", some "h", some "bob"], some ("x", some "alice"), none) := by
    decide +kernel
  obtain ⟨x, hx, hrest⟩ := Option.bind_eq_some_iff.mp hend
  obtain ⟨j, hj, hrest⟩ := Option.bind_eq_some_iff.mp hrest
  obtain ⟨x', hx', hrest⟩ := Option.bind_eq_some_iff.mp hrest
  obtain ⟨j', hj', hrest⟩ := Option.bind_eq_some_iff.mp hrest
  cases hscript : j'.script with
  | ask method params next =>
    rw [hscript] at hrest
    cases hrest
  | done found =>
    rw [hscript] at hrest
    simp only [ended?, Option.map_some, Option.some.injEq, Prod.mk.injEq, List.map_cons,
      List.map_nil,
      List.cons.injEq, and_true] at hrest
    obtain ⟨hop, ⟨hprotocol, hhost, huser⟩, rfl, hlatest⟩ := hrest
    exact ⟨x, j, x', j', hx, hj, hop, hprotocol, hhost, huser, hx', hj', hscript, hlatest⟩

lemma storesAndGets_shared : ∀ a ∈ shared, storesAndGets a = true := by
  decide

theorem latest_of_host_shared : ∃ x,
    Transition.run sampleStep (start Sample.created) shared = some x ∧
    latest (sameHost "h") x.stored = some "x" := by
  obtain ⟨x, j, x', j', hx, hj, hop, -, hhost, -, hx', hj', hfound, -⟩ := run_shared
  exact ⟨x, hx,
    latest_of_host rfl (entry_created _) (entry_created _) storesAndGets_shared hx hj hop
    hhost hx' hj' hfound⟩

theorem not_answersOwn : ¬ AnswersOwn Sample.packages Sample.config (fun _ => "") := by
  intro h
  obtain ⟨x, j, x', j', hx, hj, hop, hprotocol, hhost, huser, hx', hj', hfound, hnone⟩ := run_shared
  have hown := h _ _ x 1 j _ x' j' _ _ _ _ _ rfl (fun _ => ⟨entry_created _, entry_created _⟩)
    storesAndGets_shared hx hj hop hprotocol hhost huser hx' hj' hfound
  rw [hnone] at hown
  cases hown

end LvimKeyring.GitCredential

import LvimKeyring.Server

/-!
The git credential helper.

A call of it reads attributes from git, puts at most two requests to the agent, one after the
other, and prints at most one credential in the end. A call is given by its requests and what it
makes of their responses, so that other requests may come to the agent between two of one call.
-/

namespace LvimKeyring.GitCredential

open Rpc Crypto Vault Server

/-! ### Attributes -/

/-- A `HashMap` of texts. -/
abbrev Attrs := String → Option String

/-- `lines` takes a carriage return before the newline for a part of the line's end. -/
def stripCr (line : List Char) : List Char :=
  if line.getLast? = some '\r' then line.dropLast else line

/-- `split_once('=')` -/
def splitOnce (line : List Char) : Option (List Char × List Char) :=
  match line.dropWhile (· ≠ '=') with
  | [] => none
  | _ :: v => some (line.takeWhile (· ≠ '='), v)

/-- What a line adds. -/
def insertLine (attrs : Attrs) (line : List Char) : Attrs :=
  match splitOnce line with
  | none => attrs
  | some (k, v) => Function.update attrs (String.ofList k) (some (String.ofList v))

/-- The rest of the input, with the line that is being read. -/
def readRest (attrs : Attrs) (line : List Char) : List Char → Attrs
  | [] => if line = [] then attrs else insertLine attrs line
  | c :: cs =>
    if c = '\n' then
      if stripCr line = [] then attrs else readRest (insertLine attrs (stripCr line)) [] cs
    else readRest attrs (line ++ [c]) cs

/-- Git's lines, until a blank one. -/
def readAttrs (stdin : String) : Attrs := readRest (fun _ => none) [] stdin.toList

/-! ### Requests -/

/-- A value and the user it has. -/
abbrev Found := Option (String × Option String)

/-- The requests of a call, and the credential it ends with. -/
inductive Script
  | done (found : Found)
  /-- `rpc`, whose response may be missing. -/
  | ask (method : String) (params : Json) (next : Option Json → Script)

def Json.get? (j : Json) (name : String) : Option Json :=
  match j with
  | .obj kvs => kvs.lookup name
  | _ => none

def asStr : Json → Option String
  | .str s => some s
  | _ => none

/-- The response says `"ok": true`. -/
def isOk (msg : Json) : Bool :=
  match Json.get? msg "ok" with
  | some (.bool true) => true
  | _ => false

/-- The value of a response, and the user it has. -/
def credential (msg : Json) : Found :=
  let result := Json.get? msg "result"
  match (result.bind (Json.get? · "value")).bind asStr with
  | none => none
  | some value =>
    some (value, ((result.bind (Json.get? · "meta")).bind (Json.get? · "user")).bind asStr)

/-- A locked wallet has to answer at once. -/
def nameParams (name : String) : Json := .obj [("name", .str name), ("wait", .bool false)]

def gitName (host : String) : String := "git/" ++ host

def forgeName (host : String) : String := "forge/" ++ host

/-- The loop of `lookup` over the names that are left. -/
def lookupIn : List String → Script
  | [] => .done none
  | name :: names => .ask "secret.get" (nameParams name) fun msg =>
    match msg.filter isOk with
    | some msg => .done (credential msg)
    | none => lookupIn names

def lookup (host : String) : Script := lookupIn [gitName host, forgeName host]

/-- What is printed of a credential: the username git knows already, or the one of the entry, and
the password. -/
def printed (attrs : Attrs) : Found → String
  | none => ""
  | some (value, user) =>
    (((attrs "username").or user).elim "" fun u => "username=" ++ u ++ "\n") ++
      "password=" ++ value ++ "\n"

def storeParams (host password : String) (username : Option String) : Json :=
  .obj ([("name", .str (gitName host)), ("value", .str password), ("wait", .bool false)] ++
    username.elim [] fun u => [("meta", .obj [("user", .str u)])])

def run (op : String) (attrs : Attrs) : Script :=
  match attrs "host" with
  | none => .done none
  | some host =>
    match op with
    | "get" => lookup host
    | "store" =>
      match attrs "password" with
      | none => .done none
      | some password =>
        .ask "secret.set" (storeParams host password (attrs "username")) fun _ => .done none
    | "erase" => .ask "secret.delete" (nameParams (gitName host)) fun _ => .done none
    | _ => .done none

/-! ### The agent's answers -/

variable {Key : Type}

/-- The entry of a name, if the wallet is unlocked and has one. -/
def entry (w : World Key) (name : String) : Option Entry :=
  w.inner.session.bind fun s => s.body.entries[name]?

section Exec

variable (L : Packages Key) (cfg : Config) (serde : DecodeError → String)

/-- The response the helper reads to a request. -/
def answer (o : Outcome Key) : Json := respond serde 1 o.reply

/-- A call that is alone with the agent: what it leaves, and what it ends with. -/
def Script.exec (env : Env) (w : World Key) : Script → World Key × Found
  | .done found => (w, found)
  | .ask method params next =>
    let o := dispatch L cfg env w method params
    (next (some (answer serde o))).exec env o.world

end Exec

variable {L : Packages Key} {cfg : Config} {serde : DecodeError → String} {env : Env}
    {w : World Key}

lemma dispatch_get (name : String) :
    dispatch L cfg env w "secret.get" (nameParams name) = .of (touch env w)
      (match w.inner.session with
      | none => .error .locked
      | some s =>
        match s.body.entries[name]? with
        | none => .error (.noSecret name)
        | some e => .ok (.secret e.value (entryMeta e))) [] := by
  have hdispatch : dispatch L cfg env w "secret.get" (nameParams name)
      = Server.withSession L cfg env false (.get name) (touch env w) := rfl
  rw [hdispatch]
  unfold Server.withSession
  have hsession : (touch env w).inner.session = w.inner.session := rfl
  rw [hsession]
  cases w.inner.session with
  | none => rfl
  | some s =>
    simp only [Op.run, secretGet]
    cases s.body.entries[name]? <;> rfl

lemma credential_secret (e : Entry) :
    credential (respond serde 1 (.ok (.secret e.value (entryMeta e)))) =
      some (e.value, e.user) := by
  cases huser : e.user <;> simp [credential, respond, responseOk, Reply.toJson, EntryMeta.toJson,
    entryMeta, Json.get?, asStr, optJson, huser, List.lookup_cons]

lemma answer_get (name : String) :
    (some (answer serde (dispatch L cfg env w "secret.get" (nameParams name)))).filter isOk =
      (entry w name).map fun e => respond serde 1 (.ok (.secret e.value (entryMeta e))) := by
  rw [dispatch_get, answer, Outcome.of, entry]
  cases w.inner.session with
  | none => rfl
  | some s =>
    simp only [Option.bind_some]
    cases s.body.entries[name]? <;> rfl

lemma exec_lookupIn (names : List String) : ((lookupIn names).exec L cfg serde env w).2 =
    (names.findSome? (entry w)).map fun e => (e.value, e.user) := by
  induction names generalizing w with
  | nil => rfl
  | cons name names ih =>
    have hworld : (dispatch L cfg env w "secret.get" (nameParams name)).world = touch env w := by
      rw [dispatch_get]
      rfl
    rw [lookupIn, Script.exec]
    simp only [answer_get, hworld]
    cases he : entry w name with
    | none =>
      rw [List.findSome?_cons, he]
      exact ih (w := touch env w)
    | some e => simp only [Option.map_some, credential_secret, List.findSome?_cons, he, Script.exec]

end LvimKeyring.GitCredential

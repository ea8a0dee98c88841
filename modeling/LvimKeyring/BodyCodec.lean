import LvimKeyring.Sample

/-!
The JSON of the vault's body: the value tree its derived serializers print, and how the derived
deserializers read it back.

A field that would print its default is left out, and a field that is absent gets its default;
the two rules are declared apart, field by field. The text of a tree is the JSON package's.
-/

namespace LvimKeyring.Vault

open Rpc Crypto Result

/-! ### Printing -/

/-- The fields an entry prints, in the order of their declaration. -/
def Entry.toFields (e : Entry) : List (String × Json) :=
  [("value", .str e.value)] ++ Server.optField "user" .str e.user ++
    Server.optField "url" .str e.url ++ Server.optField "notes" .str e.notes ++
    Server.optField "tags" (fun tags => .arr (tags.map .str))
      (if e.tags = [] then none else some e.tags) ++
    Server.optField "totp" .bool (if e.totp then some true else none) ++
    [("created", .num e.created), ("updated", .num e.updated)]

def Entry.toValue (e : Entry) : Json := .obj e.toFields

/-- A map prints its entries in the order of their names. -/
def Body.toValue (b : Body) : Json :=
  .obj [("entries", .obj (b.entries.toList.map fun ne => (ne.1, ne.2.toValue)))]

/-! ### Reading -/

/-- `visit_map` on a stream: a field that comes again is an error. -/
def visitStream (fs : List Field) : List String → List (String × Json) → Except DecodeError Unit
  | _, [] => .ok ()
  | seen, kv :: kvs =>
    match fs.find? (·.name == kv.1) with
    | none => visitStream fs seen kvs
    | some f =>
      if kv.1 ∈ seen then .error (.duplicateField kv.1)
      else do
        f.check kv.2
        visitStream fs (kv.1 :: seen) kvs

/-- The fields of a struct read off a stream, from an object or from an array. -/
def streamStruct (name : String) (fs : List Field) : Decoder Present
  | .obj kvs => do
    visitStream fs [] kvs
    return fun field => kvs.lookup field
  | j => visitStruct name fs j

def decodeU64 : Decoder ℕ := decodeUint 64 "u64"

def Entry.fields : List Field :=
  [.of "value" decodeString .required, .of "user" (decodeOption decodeString) .default,
    .of "url" (decodeOption decodeString) .default,
    .of "notes" (decodeOption decodeString) .default, .of "tags" (decodeList decodeString) .default,
    .of "totp" decodeBool .default, .of "created" decodeU64 .default,
    .of "updated" decodeU64 .default]

def Entry.fromValue : Decoder Entry := fun j => do
  let p ← streamStruct "Entry" Entry.fields j
  return ⟨← require p "value" decodeString, ← optional p "user" (decodeOption decodeString) none,
    ← optional p "url" (decodeOption decodeString) none,
    ← optional p "notes" (decodeOption decodeString) none,
    ← optional p "tags" (decodeList decodeString) [], ← optional p "totp" decodeBool false,
    ← optional p "created" decodeU64 0, ← optional p "updated" decodeU64 0⟩

/-- A map: of two entries with one name the later stays. -/
def decodeEntries : Decoder (Std.ExtTreeMap String Entry)
  | .obj kvs => do
    let entries ← kvs.mapM fun kv => do return (kv.1, ← Entry.fromValue kv.2)
    return .ofList entries
  | j => .error (.invalidType j.unexpected "a map")

def Body.fields : List Field := [.of "entries" decodeEntries .default]

def Body.fromValue : Decoder Body := fun j => do
  let p ← streamStruct "Body" Body.fields j
  return ⟨← optional p "entries" decodeEntries ∅⟩

/-! ### The packages -/

/-- `serde_json`: the text of a tree, the tree of a text, and the texts of its errors. -/
structure JsonText where
  print : Json → Except String Bytes
  parse : Bytes → Except String Json
  serde : DecodeError → String

variable {Key : Type}

/-- The packages the vault is built on, the body going through its JSON. -/
def jsonLibrary (P : Primitives Key) (J : JsonText) : Library Key :=
  { P with
    toVec := fun b => J.print b.toValue
    fromSlice := fun bytes => do
      let j ← J.parse bytes
      (Body.fromValue j).mapError J.serde }

/-- The times of an entry are 64-bit numbers. -/
def Entry.Sized (e : Entry) : Prop := e.created < 2 ^ 64 ∧ e.updated < 2 ^ 64

instance (e : Entry) : Decidable e.Sized := inferInstanceAs (Decidable (_ ∧ _))

def Body.Sized (b : Body) : Prop := ∀ ne ∈ b.entries.toList, ne.2.Sized

instance (b : Body) : Decidable b.Sized :=
  inferInstanceAs (Decidable (∀ ne ∈ b.entries.toList, ne.2.Sized))

/-- The tree of a body is printed, and parsed back from its text. -/
structure JsonText.Faithful (J : JsonText) : Prop where
  prints : ∀ b : Body, b.Sized → ∃ bytes, J.print b.toValue = .ok bytes
  parses : ∀ {b : Body} {bytes}, b.Sized → J.print b.toValue = .ok bytes →
    J.parse bytes = .ok b.toValue

/-- Sealing always succeeds and opening undoes it. -/
structure Undoes (P : Primitives Key) : Prop where
  encrypts : ∀ key nonce ad m, ∃ c, P.encrypt key nonce ad m = some c
  decrypts : ∀ {key nonce ad m c}, P.encrypt key nonce ad m = some c →
    P.decrypt key nonce ad c = some m

/-! ### A tree is read back -/

@[simp] lemma lookup_optField {α : Type} (name : String) (f : α → Json) (o : Option α)
    (field : String) :
    (Server.optField name f o).lookup field = if field = name then o.map f else none := by
  cases o with
  | none => simp [Server.optField]
  | some a =>
    rw [Server.optField, List.lookup_cons]
    by_cases h : field = name
    · simp [h]
    · have hne : (field == name) = false := beq_false_of_ne h
      simp [h, hne]

lemma mem_optField {α : Type} {name : String} {f : α → Json} {o : Option α}
    {kv : String × Json} (h : kv ∈ Server.optField name f o) :
    ∃ a, o = some a ∧ kv = (name, f a) := by
  cases o with
  | none => cases h
  | some a => exact ⟨a, rfl, List.mem_singleton.mp h⟩

lemma visitStream_ok {fs : List Field} {kvs : List (String × Json)} (seen : List String)
    (hnodup : (kvs.map Prod.fst).Nodup) (hseen : ∀ kv ∈ kvs, kv.1 ∉ seen)
    (hcheck : ∀ kv ∈ kvs, ∀ f, fs.find? (·.name == kv.1) = some f → f.check kv.2 = .ok ()) :
    visitStream fs seen kvs = .ok () := by
  induction kvs generalizing seen with
  | nil => rfl
  | cons kv kvs ih =>
    rw [List.map_cons, List.nodup_cons] at hnodup
    have hrest := List.forall_mem_cons.mp hcheck
    rw [visitStream]
    cases hfind : fs.find? (·.name == kv.1) with
    | none => exact ih seen hnodup.2 (List.forall_mem_cons.mp hseen).2 hrest.2
    | some f =>
      have hok : f.check kv.2 = .ok () := hrest.1 f hfind
      have hnew : ∀ kv' ∈ kvs, kv'.1 ∉ kv.1 :: seen := by
        intro kv' hkv' hmem
        rcases List.mem_cons.mp hmem with heq | hold
        · exact hnodup.1 (List.mem_map.mpr ⟨kv', hkv', heq⟩)
        · exact hseen kv' (List.mem_cons_of_mem _ hkv') hold
      simp only [if_neg (hseen kv List.mem_cons_self), hok, ok_bind]
      exact ih (kv.1 :: seen) hnodup.2 hnew hrest.2

lemma decodeOption_str (s : String) : decodeOption decodeString (.str s) = .ok (some s) := rfl

lemma mapM_ok {α β γ : Type} (dec : β → Except DecodeError γ) (enc : α → β) (out : α → γ)
    {l : List α} (h : ∀ a ∈ l, dec (enc a) = .ok (out a)) :
    (l.map enc).mapM dec = .ok (l.map out) := by
  induction l with
  | nil => rfl
  | cons a l ih =>
    obtain ⟨ha, hl⟩ := List.forall_mem_cons.mp h
    simp only [List.map_cons, List.mapM_cons, ha, ih hl, ok_bind]
    rfl

lemma decodeList_str (l : List String) :
    decodeList decodeString (.arr (l.map .str)) = .ok l := by
  have h := mapM_ok decodeString Json.str id (l := l) fun _ _ => rfl
  rw [List.map_id] at h
  exact h

lemma decodeU64_num {n : ℕ} (h : n < 2 ^ 64) : decodeU64 (.num n) = .ok n := by
  have hn : (n : ℤ) < 2 ^ 64 := by exact_mod_cast h
  rw [decodeU64, decodeUint, if_pos ⟨Int.natCast_nonneg n, hn⟩, Int.toNat_natCast]

lemma optional_of {α : Type} {p : Present} {name : String} {dec : Decoder α} {dflt a : α}
    (h : (∃ j, p name = some j ∧ dec j = .ok a) ∨ (p name = none ∧ a = dflt)) :
    Rpc.optional p name dec dflt = .ok a := by
  rcases h with ⟨j, hj, hdec⟩ | ⟨hnone, rfl⟩
  · rw [Rpc.optional, hj]
    exact hdec
  · rw [Rpc.optional, hnone]

lemma optional_text {p : Present} {name : String} {o : Option String}
    (h : p name = o.map .str) : Rpc.optional p name (decodeOption decodeString) none = .ok o := by
  cases o with
  | none => exact optional_of (.inr ⟨h, rfl⟩)
  | some s => exact optional_of (.inl ⟨_, h, decodeOption_str s⟩)

lemma nodup_toFields (e : Entry) : (e.toFields.map Prod.fst).Nodup := by
  have hopt : ∀ {α : Type} (name : String) (f : α → Json) (o : Option α),
      ((Server.optField name f o).map Prod.fst).Sublist [name] := by
    intro α name f o
    cases o with
    | none => exact List.nil_sublist _
    | some a => exact List.Sublist.refl _
  have hsub : (e.toFields.map Prod.fst).Sublist
      (["value"] ++ ["user"] ++ ["url"] ++ ["notes"] ++ ["tags"] ++ ["totp"] ++
        ["created", "updated"]) := by
    simp only [Entry.toFields, List.map_append]
    exact ((((((List.Sublist.refl _).append (hopt _ _ _)).append (hopt _ _ _)).append
      (hopt _ _ _)).append (hopt _ _ _)).append (hopt _ _ _)).append (List.Sublist.refl _)
  exact hsub.nodup (by decide)

/-- Every field printed passes the check it is read with. -/
lemma checks_toFields {e : Entry} (he : e.Sized) : ∀ kv ∈ e.toFields, ∀ f,
    Entry.fields.find? (·.name == kv.1) = some f → f.check kv.2 = .ok () := by
  intro kv hkv f hf
  simp only [Entry.toFields, List.mem_append, List.mem_cons, List.not_mem_nil, or_false] at hkv
  rcases hkv with (((((rfl | huser) | hurl) | hnotes) | htags) | htotp) | rfl | rfl
  · cases hf
    rfl
  · obtain ⟨user, -, rfl⟩ := mem_optField huser
    cases hf
    rfl
  · obtain ⟨url, -, rfl⟩ := mem_optField hurl
    cases hf
    rfl
  · obtain ⟨notes, -, rfl⟩ := mem_optField hnotes
    cases hf
    rfl
  · obtain ⟨tags, -, rfl⟩ := mem_optField htags
    cases hf
    have hlist := decodeList_str tags
    simp only [Field.of, hlist]
    rfl
  · obtain ⟨totp, -, rfl⟩ := mem_optField htotp
    cases hf
    rfl
  · cases hf
    simp only [Field.of, decodeU64_num he.1]
    rfl
  · cases hf
    simp only [Field.of, decodeU64_num he.2]
    rfl

/-- An entry is read back from the tree it prints. -/
theorem Entry.fromValue_toValue {e : Entry} (he : e.Sized) :
    Entry.fromValue e.toValue = .ok e := by
  have hvisit := visitStream_ok [] (nodup_toFields e) (fun _ _ => List.not_mem_nil)
    (checks_toFields he)
  have hread : streamStruct "Entry" Entry.fields e.toValue
      = .ok fun field => e.toFields.lookup field := by
    simp only [Entry.toValue, streamStruct, hvisit, ok_bind]
    rfl
  generalize hp : (fun field => e.toFields.lookup field) = p at hread
  have hvalue : p "value" = some (.str e.value) := by
    simp [← hp, Entry.toFields, List.lookup_cons]
  have huser : p "user" = e.user.map .str := by
    simp [← hp, Entry.toFields, List.lookup_append, List.lookup_cons]
  have hurl : p "url" = e.url.map .str := by
    simp [← hp, Entry.toFields, List.lookup_append, List.lookup_cons]
  have hnotes : p "notes" = e.notes.map .str := by
    simp [← hp, Entry.toFields, List.lookup_append, List.lookup_cons]
  have htags : p "tags" = (if e.tags = [] then none else some e.tags).map
      fun tags => .arr (tags.map .str) := by
    simp [← hp, Entry.toFields, List.lookup_append, List.lookup_cons]
  have htotp : p "totp" = (if e.totp then some true else none).map .bool := by
    simp [← hp, Entry.toFields, List.lookup_append, List.lookup_cons]
  have hcreated : p "created" = some (.num e.created) := by
    simp [← hp, Entry.toFields, List.lookup_append, List.lookup_cons]
  have hupdated : p "updated" = some (.num e.updated) := by
    simp [← hp, Entry.toFields, List.lookup_append, List.lookup_cons]
  have hvalue' : require p "value" decodeString = .ok e.value := by
    rw [require, hvalue]
    rfl
  -- An empty list and a `false` are not printed, and are what an absent field reads as.
  have htags' : Rpc.optional p "tags" (decodeList decodeString) [] = .ok e.tags := by
    by_cases h : e.tags = []
    · rw [if_pos h] at htags
      exact optional_of (.inr ⟨htags, h⟩)
    · rw [if_neg h] at htags
      exact optional_of (.inl ⟨_, htags, decodeList_str e.tags⟩)
  have htotp' : Rpc.optional p "totp" decodeBool false = .ok e.totp := by
    cases h : e.totp with
    | true =>
      rw [h] at htotp
      exact optional_of (.inl ⟨_, htotp, rfl⟩)
    | false =>
      rw [h] at htotp
      exact optional_of (.inr ⟨htotp, rfl⟩)
  have hcreated' : Rpc.optional p "created" decodeU64 0 = .ok e.created :=
    optional_of (.inl ⟨_, hcreated, decodeU64_num he.1⟩)
  have hupdated' : Rpc.optional p "updated" decodeU64 0 = .ok e.updated :=
    optional_of (.inl ⟨_, hupdated, decodeU64_num he.2⟩)
  simp only [Entry.fromValue, hread, hvalue', optional_text huser, optional_text hurl,
    optional_text hnotes, htags', htotp', hcreated', hupdated', ok_bind]
  rfl

/-- The whole map is read back. -/
theorem Body.fromValue_toValue {b : Body} (hb : b.Sized) : Body.fromValue b.toValue = .ok b := by
  have hentries : decodeEntries (.obj (b.entries.toList.map fun ne => (ne.1, ne.2.toValue)))
      = .ok b.entries := by
    have hmap := mapM_ok (fun kv : String × Json => do return (kv.1, ← Entry.fromValue kv.2))
      (fun ne => (ne.1, ne.2.toValue)) (fun ne => (ne.1, ne.2)) (l := b.entries.toList)
      fun ne hne => by
        simp only [Entry.fromValue_toValue (hb ne hne), ok_bind]
        rfl
    have hid : b.entries.toList.map (fun ne => (ne.1, ne.2)) = b.entries.toList :=
      List.map_id _
    rw [decodeEntries, hmap, hid, ok_bind, OrderedMap.ofList_toList]
    rfl
  have hvisit : visitStream Body.fields [] [("entries",
      .obj (b.entries.toList.map fun ne => (ne.1, ne.2.toValue)))] = .ok () := by
    refine visitStream_ok [] (by simp) (fun _ _ => List.not_mem_nil) fun kv hkv f hf => ?_
    obtain rfl := List.mem_singleton.mp hkv
    cases hf
    simp only [Field.of, hentries]
    rfl
  have hread : streamStruct "Body" Body.fields b.toValue
      = .ok fun field => List.lookup field [("entries",
        Json.obj (b.entries.toList.map fun ne => (ne.1, ne.2.toValue)))] := by
    simp only [Body.toValue, streamStruct, hvisit, ok_bind]
    rfl
  have hopt : Rpc.optional (fun field => List.lookup field [("entries",
      Json.obj (b.entries.toList.map fun ne => (ne.1, ne.2.toValue)))]) "entries" decodeEntries ∅
      = .ok b.entries :=
    optional_of (.inl ⟨_, rfl, hentries⟩)
  simp only [Body.fromValue, hread, hopt, ok_bind]
  rfl

/-! ### The file is read back -/

variable {P : Primitives Key} {J : JsonText}

lemma holds_of_write_json (hP : Undoes P) (hJ : J.Faithful) {s : Session Key} (hs : s.body.Sized)
    {io : Faults} {fs fs' : FileSystem} {path : String} {nonce : Nonce}
    (h : write (jsonLibrary P J) io fs path s nonce = (fs', .ok ())) :
    Holds (jsonLibrary P J) fs' path s := by
  unfold write at h
  cases hr : render (jsonLibrary P J) s nonce with
  | error e => simp [hr] at h
  | ok out =>
    simp only [hr] at h
    have hfs : fs' path = some out := by
      rcases store_spec io fs path out with ⟨-, -, hfs⟩ | ⟨-, ⟨e, he⟩, -⟩
      · rwa [h] at hfs
      · simp [h] at he
    obtain ⟨json, ct, hjson, hct, rfl⟩ := render_eq_ok.mp hr
    have hopen : aeadOpen P s.key nonce (aad s.params s.salt) ct = .ok json :=
      aeadOpen_eq_ok.mpr (hP.decrypts (aeadSeal_eq_ok.mp hct))
    have hbody : (jsonLibrary P J).fromSlice json = .ok s.body := by
      simp only [jsonLibrary, hJ.parses hs hjson, ok_bind, Body.fromValue_toValue hs,
        Except.mapError]
    refine holds_iff.mpr ⟨_, _, ct, hfs, parse_layout _ _ _ _, ?_⟩
    exact openBody_eq_ok.mpr ⟨rfl, rfl, rfl, json, hopen, hbody⟩

/-- Writing and then unlocking is the identity: a session of any body, sealed under the key a
password derives, is written (when no file operation fails), and whenever it has been written
the password unlocks that very session. -/
theorem unlock_write (hP : Undoes P) (hJ : J.Faithful) {body : Body} (hb : body.Sized)
    {password : Bytes} {params : KdfParams} {salt : Salt} {key : Key}
    (hkey : deriveKey P password salt params = .ok key) (nonce : Nonce) (fs : FileSystem)
    (path : String) :
    (∃ fs', write (jsonLibrary P J) .none fs path ⟨body, key, salt, params⟩ nonce
      = (fs', .ok ())) ∧
    ∀ io io' fs', write (jsonLibrary P J) io fs path ⟨body, key, salt, params⟩ nonce
        = (fs', .ok ()) → io'.fails .read = none →
      unlock (jsonLibrary P J) io' fs' path password = .ok ⟨body, key, salt, params⟩ := by
  constructor
  · obtain ⟨json, hjson⟩ := hJ.prints body hb
    obtain ⟨ct, hct⟩ := hP.encrypts key nonce (aad params salt) json
    have hout : render (jsonLibrary P J) ⟨body, key, salt, params⟩ nonce
        = .ok (aad params salt ++ nonce.toList ++ ct) :=
      render_eq_ok.mpr ⟨json, ct, hjson, aeadSeal_eq_ok.mpr hct, rfl⟩
    exact write_none_of_render hout fs path
  · intro io io' fs' hw hread
    exact unlock_eq_ok.mpr ⟨hread, hkey, holds_of_write_json hP hJ hb hw⟩

/-! ### A body read back -/

section Read

open Sample

/-- A printer of the trees of bodies, and its parser. -/
def jsonText : JsonText where
  print j :=
    match Body.fromValue j with
    | .ok b => toVec b
    | .error _ => .error "not a body"
  parse bytes := (fromSlice bytes).map Body.toValue
  serde _ := "invalid type"

lemma jsonText_faithful : jsonText.Faithful where
  prints b hb := by
    simp only [jsonText, Body.fromValue_toValue hb]
    exact library_ideal.serializes b
  parses {b bytes} hb h := by
    simp only [jsonText, Body.fromValue_toValue hb] at h
    have hback : fromSlice bytes = .ok b := library_ideal.roundTrip h
    simp only [jsonText, hback]
    rfl

lemma primitives_undoes : Undoes primitives :=
  ⟨primitives_ideal.encrypts, primitives_ideal.decrypts⟩

/-- A body with one entry. -/
def oneEntry : Body := ⟨.ofList [("a", Server.newEntry "x" 7)]⟩

/-- The entry and the costs come back from a file written under the default costs. -/
theorem unlock_write_oneEntry :
    (write (jsonLibrary primitives jsonText) .none (fun _ => none) "v"
      ⟨oneEntry, session.key, session.salt, session.params⟩ env.nonce).2 = .ok () ∧
    unlock (jsonLibrary primitives jsonText) .none
      (write (jsonLibrary primitives jsonText) .none (fun _ => none) "v"
        ⟨oneEntry, session.key, session.salt, session.params⟩ env.nonce).1 "v" (asBytes "pw")
      = .ok ⟨oneEntry, session.key, session.salt, session.params⟩ := by
  have hkey : deriveKey primitives (asBytes "pw") session.salt session.params
      = .ok session.key := by
    decide +kernel
  have hsized : oneEntry.Sized := by decide +kernel
  obtain ⟨⟨fs', hw⟩, hback⟩ := unlock_write primitives_undoes jsonText_faithful hsized hkey
    env.nonce (fun _ => none) "v"
  exact ⟨by rw [hw], by rw [hw]; exact hback .none .none fs' hw rfl⟩

end Read

end LvimKeyring.Vault

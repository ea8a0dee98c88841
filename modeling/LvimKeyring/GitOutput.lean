import LvimKeyring.GitCredential
import LvimKeyring.Sample

/-!
What git reads off the output of the credential helper.

The helper prints a user name and a password as they are, each in a line. Git reads them back as
they are when they have no newline and do not end in a carriage return, and only then.
-/

namespace LvimKeyring.GitCredential

open Rpc Crypto Vault Server

/-- The text is one line, and all of it. -/
def Unbroken (s : String) : Prop := '\n' ∉ s.toList ∧ stripCr s.toList = s.toList

instance (s : String) : Decidable (Unbroken s) := inferInstanceAs (Decidable (_ ∧ _))

/-- Exactly a password, and a user name if there is one. -/
def onlyCredential (username : Option String) (password : String) : Attrs :=
  Function.update (username.elim (fun _ => none) fun u =>
    Function.update (fun _ => none) "username" (some u)) "password" (some password)

/-! ### Lines -/

variable {attrs : Attrs} {line cs rest k v : List Char}

lemma readRest_line (hl : '\n' ∉ cs) (hne : stripCr (line ++ cs) ≠ []) :
    readRest attrs line (cs ++ '\n' :: rest) =
      readRest (insertLine attrs (stripCr (line ++ cs))) [] rest := by
  induction cs generalizing line with
  | nil =>
    rw [List.append_nil] at hne ⊢
    simp [readRest, hne]
  | cons c cs ih =>
    have hc : c ≠ '\n' := fun heq => hl (heq ▸ List.mem_cons_self)
    have happ : line ++ c :: cs = (line ++ [c]) ++ cs := by simp
    rw [happ] at hne ⊢
    rw [List.cons_append, readRest, if_neg hc]
    exact ih (fun hmem => hl (List.mem_cons_of_mem c hmem)) hne

lemma splitOnce_eq (hk : '=' ∉ k) : splitOnce (k ++ '=' :: v) = some (k, v) := by
  have hall : ∀ c ∈ k, decide (c ≠ '=') = true := by
    intro c hc
    exact decide_eq_true fun heq => hk (heq ▸ hc)
  unfold splitOnce
  rw [List.dropWhile_append_of_pos hall, List.takeWhile_append_of_pos hall]
  simp

lemma stripCr_field : stripCr (k ++ '=' :: v) = k ++ '=' :: stripCr v := by
  unfold stripCr
  rcases v.eq_nil_or_concat with rfl | ⟨init, c, rfl⟩
  · simp
  · have happ : k ++ '=' :: init.concat c = (k ++ '=' :: init) ++ [c] := by simp
    rw [happ, List.getLast?_concat, List.dropLast_concat, List.concat_eq_append,
      List.getLast?_concat, List.dropLast_concat]
    split <;> simp

lemma readRest_field {key : String} {value : List Char} (hk : '=' ∉ key.toList)
    (hn : '\n' ∉ key.toList) (hv : '\n' ∉ value) :
    readRest attrs [] (key.toList ++ '=' :: value ++ '\n' :: rest) =
      readRest (Function.update attrs key (some (String.ofList (stripCr value)))) [] rest := by
  have hline : '\n' ∉ key.toList ++ '=' :: value := by
    simp only [List.mem_append, List.mem_cons, not_or]
    exact ⟨hn, by decide, hv⟩
  have hne : stripCr ([] ++ (key.toList ++ '=' :: value)) ≠ [] := by
    rw [List.nil_append, stripCr_field]
    simp
  rw [readRest_line hline hne, List.nil_append, stripCr_field, insertLine, splitOnce_eq hk]
  simp

/-! ### No value has a newline -/

def Attrs.Lined (attrs : Attrs) : Prop := ∀ key value, attrs key = some value → '\n' ∉ value.toList

lemma lined_insertLine (h : attrs.Lined) (hl : '\n' ∉ line) : (insertLine attrs line).Lined := by
  unfold insertLine splitOnce
  split
  · exact h
  · rename_i k v hsplit
    split at hsplit
    · cases hsplit
    · rename_i c w hdrop
      cases hsplit
      intro key value hkey
      by_cases heq : key = String.ofList (line.takeWhile (· ≠ '='))
      · rw [heq, Function.update_self] at hkey
        cases hkey
        intro hmem
        rw [String.toList_ofList] at hmem
        refine hl ((List.dropWhile_suffix (· ≠ '=')).subset ?_)
        rw [hdrop]
        exact List.mem_cons_of_mem c hmem
      · rw [Function.update_of_ne heq] at hkey
        exact h key value hkey

lemma not_mem_stripCr (hl : '\n' ∉ line) : '\n' ∉ stripCr line := by
  unfold stripCr
  split
  · exact fun hmem => hl (List.dropLast_subset line hmem)
  · exact hl

lemma lined_readRest (h : attrs.Lined) (hl : '\n' ∉ line) : (readRest attrs line cs).Lined := by
  induction cs generalizing attrs line with
  | nil =>
    unfold readRest
    split
    · exact h
    · exact lined_insertLine h hl
  | cons c cs ih =>
    unfold readRest
    split
    · split
      · exact h
      · exact ih (lined_insertLine h (not_mem_stripCr hl)) List.not_mem_nil
    · rename_i hc
      refine ih h ?_
      simp only [List.mem_append, List.mem_singleton, not_or]
      exact ⟨hl, Ne.symm hc⟩

lemma lined_readAttrs (stdin : String) : (readAttrs stdin).Lined :=
  lined_readRest (fun _ _ h => by cases h) List.not_mem_nil

/-! ### The output read back -/

/-- What is read back when nothing has a newline. -/
lemma readAttrs_printed {username : Option String} {password : String} {user : Option String}
    (huser : (attrs "username").or user = username) (hp : '\n' ∉ password.toList)
    (hu : ∀ u, username = some u → '\n' ∉ u.toList) :
    readAttrs (printed attrs (some (password, user))) =
      onlyCredential (username.map fun u => String.ofList (stripCr u.toList))
        (String.ofList (stripCr password.toList)) := by
  have hlast : ∀ attrs : Attrs, readRest attrs [] ("password=" ++ password ++ "\n").toList =
      Function.update attrs "password" (some (String.ofList (stripCr password.toList))) := by
    intro attrs
    have htext : ("password=" ++ password ++ "\n").toList
        = "password".toList ++ '=' :: password.toList ++ '\n' :: [] := by
      simp
    rw [htext, readRest_field (by decide) (by decide) hp]
    rfl
  simp only [readAttrs, printed, huser]
  cases username with
  | none =>
    have hnone : ("" ++ "password=" ++ password ++ "\n") = "password=" ++ password ++ "\n" := by
      simp
    simp only [Option.elim_none, Option.map_none]
    rw [hnone, hlast]
    rfl
  | some u =>
    have htext : ("username=" ++ u ++ "\n" ++ "password=" ++ password ++ "\n").toList
        = "username".toList ++ '=' :: u.toList ++ '\n' ::
          ("password=" ++ password ++ "\n").toList := by
      simp
    simp only [Option.elim_some, Option.map_some]
    rw [htext, readRest_field (by decide) (by decide) (hu u rfl), hlast]
    rfl

lemma unbroken_of_stripCr {s : String} (hn : '\n' ∉ s.toList)
    (h : String.ofList (stripCr s.toList) = s) : Unbroken s := by
  refine ⟨hn, ?_⟩
  have hlist := congrArg String.toList h
  rwa [String.toList_ofList] at hlist

lemma readAttrs_printed_iff {username : Option String} {password : String} {user : Option String}
    (huser : (attrs "username").or user = username) :
    readAttrs (printed attrs (some (password, user))) = onlyCredential username password ↔
      Unbroken password ∧ ∀ u, username = some u → Unbroken u := by
  constructor
  · intro h
    have hlined := lined_readAttrs (printed attrs (some (password, user)))
    rw [h] at hlined
    have hp : '\n' ∉ password.toList := hlined "password" password (Function.update_self _ _ _)
    have hu : ∀ u, username = some u → '\n' ∉ u.toList := by
      rintro u rfl
      exact hlined "username" u rfl
    rw [readAttrs_printed huser hp hu] at h
    have hpass := congrFun h "password"
    simp only [onlyCredential, Function.update_self, Option.some.injEq] at hpass
    refine ⟨unbroken_of_stripCr hp hpass, ?_⟩
    rintro u rfl
    have hname : some (String.ofList (stripCr u.toList)) = some u := congrFun h "username"
    exact unbroken_of_stripCr (hu u rfl) (Option.some.inj hname)
  · rintro ⟨⟨hp, hpass⟩, hu⟩
    have hname : (username.map fun u => String.ofList (stripCr u.toList)) = username := by
      cases username with
      | none => rfl
      | some u =>
        rw [Option.map_some, (hu u rfl).2, String.ofList_toList]
    rw [readAttrs_printed huser hp fun u hu' => (hu u hu').1, hname, hpass, String.ofList_toList]

/-! ### A call -/

variable {Key : Type} {L : Packages Key} {cfg : Config} {serde : DecodeError → String} {env : Env}
variable {w : World Key}

/-- What git reads off the output of a `get` is what the wallet has for the host, and nothing
else. -/
def ReadsBack (L : Packages Key) (cfg : Config) (serde : DecodeError → String) (env : Env)
    (w : World Key) (stdin : String) (e : Entry) : Prop :=
  readAttrs (printed (readAttrs stdin) ((run "get" (readAttrs stdin)).exec L cfg serde env w).2) =
    onlyCredential ((readAttrs stdin "username").or e.user) e.value

/-- The credential comes through exactly when neither of its texts breaks its line. -/
theorem readsBack_iff_unbroken {stdin host : String} {e : Entry}
    (hhost : readAttrs stdin "host" = some host)
    (he : [gitName host, forgeName host].findSome? (entry w) = some e) :
    ReadsBack L cfg serde env w stdin e ↔
      Unbroken e.value ∧ ∀ u, (readAttrs stdin "username").or e.user = some u → Unbroken u := by
  have hrun : ((run "get" (readAttrs stdin)).exec L cfg serde env w).2
      = some (e.value, e.user) := by
    simp only [run, hhost, lookup, exec_lookupIn, he, Option.map_some]
  rw [ReadsBack, hrun]
  exact readAttrs_printed_iff rfl

/-! ### Two wallets -/

/-- The vault just created, and the entry of a host set in it. -/
def kept (value : String) : World Sample.Key :=
  (dispatch Sample.packages Sample.config Sample.env Sample.created "secret.set"
    (.obj [("name", .str (gitName "h")), ("value", .str value)])).world

theorem readsBack_plain : ReadsBack Sample.packages Sample.config (fun _ => "") Sample.env
    (kept "x") "protocol=https\nhost=h\nusername=u\n\n" (newEntry "x" 7) := by
  have hhost : readAttrs "protocol=https\nhost=h\nusername=u\n\n" "host" = some "h" := by
    decide +kernel
  refine (readsBack_iff_unbroken hhost (by decide +kernel)).mpr ⟨by decide, fun u hu => ?_⟩
  have hname : (readAttrs "protocol=https\nhost=h\nusername=u\n\n" "username").or none
      = some "u" := by
    decide +kernel
  rw [← Option.some.inj (hname.symm.trans hu)]
  decide

/-- A value of two lines: git is told to quit. -/
theorem not_readsBack : ¬ ∀ env (w : World Sample.Key) stdin host e,
    readAttrs stdin "host" = some host →
    [gitName host, forgeName host].findSome? (entry w) = some e →
    ReadsBack Sample.packages Sample.config (fun _ => "") env w stdin e := by
  intro h
  have hback := h Sample.env (kept "x\nquit=1") "host=h\n\n" "h" (newEntry "x\nquit=1" 7)
    (by decide +kernel) (by decide +kernel)
  have hquit := congrFun hback "quit"
  revert hquit
  decide +kernel

end LvimKeyring.GitCredential

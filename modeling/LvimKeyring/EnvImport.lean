import LvimKeyring.EventLoop
import LvimKeyring.Lib.LuaPattern

/-!
The `.env` file of an import.

A line is trimmed and matched against two patterns in turn, and one layer of quotes is taken off
the value. What can be written in a `.env` file is stated apart from that, as lines that are
rendered from bindings.
-/

namespace LvimKeyring.EnvImport

open EventLoop (isSpace trim)
open LuaPattern

/-! ### The parser -/

structure Entry where
  name : Bytes
  value : Bytes
  deriving DecidableEq

def doubleQuote : UInt8 := 34

def singleQuote : UInt8 := 39

def hash : UInt8 := 35

def equals : UInt8 := 61

/-- `export` -/
def exportWord : Bytes := [101, 120, 112, 111, 114, 116]

/-- `[%w_]` -/
def isWord (b : UInt8) : Bool :=
  (48 ≤ b && b ≤ 57) || (65 ≤ b && b ≤ 90) || (97 ≤ b && b ≤ 122) || b = 95

/-- Strip one layer of matching surrounding quotes. -/
def unquote (v : Bytes) : Bytes :=
  let v := trim v
  let q := v.head?
  if (q = some doubleQuote ∨ q = some singleQuote) ∧ v.getLast? = q ∧ 2 ≤ v.length then
    v.tail.dropLast
  else v

/-- `([%w_]+)%s*=%s*(.*)$` -/
def assignment : List (Item UInt8) :=
  [.enter, .plus isWord, .leave, .star isSpace, .one (· == equals), .star isSpace,
    .enter, .star fun _ => true, .leave, .done]

/-- `export%s+([%w_]+)%s*=%s*(.*)$` -/
def exported : List (Item UInt8) := lit exportWord ++ .plus isSpace :: assignment

/-- The key and the value of a line. -/
def keyVal (line : Bytes) : Option (List Bytes) :=
  (captures exported line).or (captures assignment line)

/-- What a line adds. -/
def parseLine (raw : Bytes) : Option Entry :=
  let line := trim raw
  if line ≠ [] ∧ line.head? ≠ some hash then
    match keyVal line with
    | some [key, val] => some { name := key, value := unquote val }
    | _ => none
  else none

/-- `parse_env` -/
def parseEnv (lines : List Bytes) : List Entry :=
  lines.foldl (fun out raw => out ++ (parseLine raw).toList) []

lemma parseEnv_eq (lines : List Bytes) : parseEnv lines = lines.filterMap parseLine := by
  have hloop : ∀ out, lines.foldl (fun out raw => out ++ (parseLine raw).toList) out
      = out ++ lines.filterMap parseLine := by
    induction lines with
    | nil => exact fun out => (List.append_nil out).symm
    | cons raw lines ih =>
      intro out
      rw [List.foldl_cons, ih, List.append_assoc]
      cases h : parseLine raw with
      | none => rw [List.filterMap_cons_none h, Option.toList_none, List.nil_append]
      | some e => rw [List.filterMap_cons_some h, Option.toList_some, List.singleton_append]
  exact hloop []

/-! ### What is written -/

/-- Some whitespace. -/
abbrev Blank := { bs : Bytes // ∀ b ∈ bs, isSpace b }

structure Binding where
  key : Bytes
  key_ne : key ≠ []
  key_word : ∀ b ∈ key, isWord b
  value : Bytes

def Binding.entry (b : Binding) : Entry := { name := b.key, value := b.value }

inductive Quotes
  | double
  | single
  | bare

def Quotes.wrap : Quotes → Bytes → Bytes
  | .double, v => doubleQuote :: v ++ [doubleQuote]
  | .single, v => singleQuote :: v ++ [singleQuote]
  | .bare, v => v

/-- Wrapped in a matching pair of quotes. -/
def Wrapped (v : Bytes) : Prop :=
  ∃ body, v = Quotes.wrap .double body ∨ v = Quotes.wrap .single body

/-- Without quotes, a value has to be its own trim, and not wrapped itself. -/
def Quotes.Fits : Quotes → Bytes → Prop
  | .bare, v => trim v = v ∧ ¬ Wrapped v
  | _, _ => True

/-- A binding, and how it is written. -/
structure Written where
  binding : Binding
  before : Blank
  /-- The whitespace between `export` and the key. -/
  exported : Option { bs : Blank // bs.1 ≠ [] }
  beforeEq : Blank
  afterEq : Blank
  quotes : Quotes
  fits : quotes.Fits binding.value
  after : Blank

/-- `export` and what follows it. -/
def Written.start (w : Written) : Bytes := w.exported.elim [] fun s => exportWord ++ s.1.1

def Written.render (w : Written) : Bytes :=
  w.before.1 ++ (w.start ++ w.binding.key ++ w.beforeEq.1 ++ [equals]) ++ w.afterEq.1 ++
    w.quotes.wrap w.binding.value ++ w.after.1

/-- A line of a `.env` file. -/
inductive Line
  | binding (w : Written)
  | blank (ws : Blank)
  | comment (ws : Blank) (text : Bytes)

def Line.render : Line → Bytes
  | .binding w => w.render
  | .blank ws => ws.1
  | .comment ws text => ws.1 ++ hash :: text

def Line.binding? : Line → Option Binding
  | .binding w => some w.binding
  | _ => none

/-! ### Trimming -/

/-- Whitespace at neither end. -/
structure Tight (s : Bytes) : Prop where
  head : ∀ b ∈ s.head?, isSpace b = false
  last : ∀ b ∈ s.getLast?, isSpace b = false

lemma dropWhile_eq_self {p : UInt8 → Bool} {s : Bytes} (h : ∀ b ∈ s.head?, p b = false) :
    s.dropWhile p = s := by
  cases s with
  | nil => rfl
  | cons c s => rw [List.dropWhile_cons_of_neg (by simp [h c rfl])]

lemma head_dropWhile (p : UInt8 → Bool) (s : Bytes) : ∀ b ∈ (s.dropWhile p).head?, p b = false := by
  intro b hb
  have h := List.head?_dropWhile_not p s
  rwa [Option.mem_def.mp hb] at h

lemma trim_pad (w w' : Blank) {s : Bytes} (hs : Tight s) : trim (w.1 ++ s ++ w'.1) = s := by
  have hleft : (w.1 ++ s ++ w'.1).dropWhile isSpace = (s ++ w'.1).dropWhile isSpace := by
    rw [List.append_assoc, List.dropWhile_append_of_pos w.2]
  have hright : ∀ b ∈ w'.1.reverse, isSpace b := fun b hb => w'.2 b (List.mem_reverse.mp hb)
  rw [trim, hleft]
  cases s with
  | nil => rw [List.nil_append, List.dropWhile_eq_nil_iff.mpr w'.2]; rfl
  | cons c s =>
    have hlast : ∀ b ∈ (c :: s).reverse.head?, isSpace b = false := by
      rw [List.head?_reverse]
      exact hs.last
    rw [dropWhile_eq_self (s := c :: s ++ w'.1) (hs.head ·), List.reverse_append,
      List.dropWhile_append_of_pos hright, dropWhile_eq_self hlast, List.reverse_reverse]

lemma trim_of_tight {s : Bytes} (hs : Tight s) : trim s = s := by
  have hnil : ∀ b ∈ ([] : Bytes), isSpace b := fun b hb => by cases hb
  simpa using trim_pad ⟨[], hnil⟩ ⟨[], hnil⟩ hs

lemma exists_pad (s : Bytes) : ∃ w w' : Blank, s = w.1 ++ trim s ++ w'.1 := by
  let r := (s.dropWhile isSpace).reverse
  have hright : ∀ b ∈ (r.takeWhile isSpace).reverse, isSpace b := fun b hb =>
    List.mem_takeWhile_imp (List.mem_reverse.mp hb)
  refine ⟨⟨s.takeWhile isSpace, fun b => List.mem_takeWhile_imp⟩, ⟨_, hright⟩, ?_⟩
  have hr : (r.dropWhile isSpace).reverse ++ (r.takeWhile isSpace).reverse
      = s.dropWhile isSpace := by
    rw [← List.reverse_append, List.takeWhile_append_dropWhile, List.reverse_reverse]
  rw [List.append_assoc, trim, hr, List.takeWhile_append_dropWhile]

lemma tight_trim (s : Bytes) : Tight (trim s) := by
  refine ⟨fun b hb => ?_, fun b hb => ?_⟩
  · have hpre : trim s <+: s.dropWhile isSpace := by
      have hsuf := List.dropWhile_suffix (l := (s.dropWhile isSpace).reverse) isSpace
      rwa [← List.reverse_prefix, List.reverse_reverse] at hsuf
    obtain ⟨rest, hrest⟩ := hpre
    refine head_dropWhile isSpace s b ?_
    rw [← hrest]
    exact List.mem_head?_append_of_mem_head? hb
  · rw [trim, List.getLast?_reverse] at hb
    exact head_dropWhile isSpace _ b hb

/-! ### Matching -/

lemma isWord_of_isSpace {b : UInt8} (h : isSpace b) : isWord b = false := by
  simp only [isSpace, Bool.or_eq_true, decide_eq_true_eq, Bool.and_eq_true] at h
  rcases h with rfl | h
  · rfl
  · simp [isWord, UInt8.le_iff_toNat_le, ← UInt8.toNat_inj] at h ⊢
    omega

lemma isSpace_of_isWord {b : UInt8} (h : isWord b) : isSpace b = false := by
  by_contra hs
  rw [isWord_of_isSpace (by simpa using hs)] at h
  cases h

lemma not_word_blank (s : Blank) (r : Bytes) :
    ∀ b ∈ (s.1 ++ equals :: r).head?, isWord b = false := by
  obtain ⟨s, hs⟩ := s
  cases s with
  | nil =>
    intro b hb
    cases hb
    rfl
  | cons c s =>
    intro b hb
    cases hb
    exact isWord_of_isSpace (hs c List.mem_cons_self)

lemma not_space_key (b : Binding) (r : Bytes) : ∀ c ∈ (b.key ++ r).head?, isSpace c = false := by
  obtain ⟨key, hne, hword, -⟩ := b
  cases key with
  | nil => exact absurd rfl hne
  | cons c key =>
    intro d hd
    cases hd
    exact isSpace_of_isWord (hword c List.mem_cons_self)

lemma run_assignment (b : Binding) (s e : Blank) {q : Bytes} (hq : ∀ c ∈ q.head?, isSpace c = false)
    (cur : Bytes) :
    run assignment (b.key ++ (s.1 ++ equals :: (e.1 ++ q))) cur = some [b.key, q] := by
  have hvalue : ∀ cur, run [.enter, .star fun _ => true, .leave, .done] q cur = some [q] := by
    intro cur
    have hend : run [.leave, .done] [] ([] ++ q) = some [q] := rfl
    have hall := run_star (p := fun _ => true) (t := q) (fun _ _ => rfl)
      (fun c hc => by cases hc) hend
    rwa [List.append_nil] at hall
  have hsign : ∀ cur, run (.one (· == equals) :: .star isSpace ::
      [.enter, .star fun _ => true, .leave, .done]) (equals :: (e.1 ++ q)) cur = some [q] := by
    intro cur
    rw [run, if_pos (beq_self_eq_true equals)]
    exact run_star e.2 hq (hvalue _)
  refine run_plus b.key_ne b.key_word (not_word_blank s _) ?_
  rw [List.nil_append, run, Option.map_eq_some_iff]
  refine ⟨[q], run_star s.2 (fun c hc => ?_) (hsign _), rfl⟩
  cases hc
  rfl

lemma captures_exported (b : Binding) {t : Blank} (ht : t.1 ≠ []) (s e : Blank) {q : Bytes}
    (hq : ∀ c ∈ q.head?, isSpace c = false) :
    captures exported (exportWord ++ (t.1 ++ (b.key ++ (s.1 ++ equals :: (e.1 ++ q)))))
      = some [b.key, q] := by
  rw [captures, exported, run_lit]
  exact run_plus ht t.2 (not_space_key b _) (run_assignment b s e hq _)

lemma of_cuts {line cur : Bytes} {caps : List Bytes} (h : Cuts assignment line cur caps) :
    ∃ (b : Binding) (s e : Blank),
      line = b.key ++ (s.1 ++ equals :: (e.1 ++ b.value)) ∧ caps = [b.key, b.value] := by
  obtain ⟨key, _, rfl, hne, hword, caps', rfl, h⟩ := h
  obtain ⟨s, _, rfl, hs, _, _, rfl, heq, e, _, rfl, he, val, rest, rfl, -, _, rfl, rfl, rfl⟩ := h
  obtain rfl := beq_iff_eq.mp heq
  exact ⟨⟨key, hne, hword, val⟩, ⟨s, hs⟩, ⟨e, he⟩, by simp, by simp⟩

lemma of_captures_assignment {line : Bytes} {caps : List Bytes}
    (h : captures assignment line = some caps) : ∃ (b : Binding) (s e : Blank),
      line = b.key ++ (s.1 ++ equals :: (e.1 ++ b.value)) ∧ caps = [b.key, b.value] :=
  of_cuts (cuts_of_run h)

lemma of_captures_exported {line : Bytes} {caps : List Bytes}
    (h : captures exported line = some caps) : ∃ (b : Binding) (t s e : Blank), t.1 ≠ [] ∧
      line = exportWord ++ (t.1 ++ (b.key ++ (s.1 ++ equals :: (e.1 ++ b.value)))) ∧
      caps = [b.key, b.value] := by
  obtain ⟨_, rfl, t, _, rfl, hne, ht, h⟩ := cuts_lit (cuts_of_run h)
  obtain ⟨b, s, e, rfl, rfl⟩ := of_cuts h
  exact ⟨b, ⟨t, ht⟩, s, e, hne, rfl, rfl⟩

lemma captures_exported_eq_none (b : Binding) (s : Blank) (r : Bytes) :
    captures exported (b.key ++ (s.1 ++ equals :: r)) = none := by
  by_contra hne
  obtain ⟨caps, h⟩ := Option.ne_none_iff_exists'.mp hne
  obtain ⟨c, t, s', e, ht, heq, -⟩ := of_captures_exported h
  have hexport : ∀ x ∈ exportWord, isWord x := List.all_eq_true.mp (by decide)
  have hspace : ∀ x ∈ (t.1 ++ (c.key ++ (s'.1 ++ equals :: (e.1 ++ c.value)))).head?,
      isWord x = false := by
    obtain ⟨t, hts⟩ := t
    cases t with
    | nil => exact absurd rfl ht
    | cons x t =>
      intro y hy
      cases hy
      exact isWord_of_isSpace (hts x List.mem_cons_self)
  -- Both sides start with a word, and the word is the same.
  have hrest := (append_unique b.key_word hexport (not_word_blank s r) hspace heq).2
  have hsign : ∀ x ∈ (equals :: r).head?, isSpace x = false := by
    intro x hx
    cases hx
    rfl
  have hkey := (append_unique s.2 t.2 hsign (not_space_key c _) hrest).2
  obtain ⟨key, hkne, hword, value⟩ := c
  cases key with
  | nil => exact hkne rfl
  | cons x key =>
    have hx : equals = x := (List.cons.inj hkey).1
    exact absurd (hword x List.mem_cons_self) (by rw [← hx]; decide)

/-! ### Quotes -/

lemma getLast_quoted (c : UInt8) (v : Bytes) : (c :: v ++ [c]).getLast? = some c :=
  List.getLast?_concat

lemma tight_quoted {c : UInt8} (hc : isSpace c = false) (v : Bytes) : Tight (c :: v ++ [c]) := by
  refine ⟨fun b hb => ?_, fun b hb => ?_⟩
  · cases hb
    exact hc
  · rw [getLast_quoted] at hb
    cases hb
    exact hc

lemma tight_wrap {q : Quotes} {v : Bytes} (h : q.Fits v) : Tight (q.wrap v) := by
  cases q with
  | double => exact tight_quoted rfl v
  | single => exact tight_quoted rfl v
  | bare =>
    obtain ⟨htrim, -⟩ := h
    rw [Quotes.wrap, ← htrim]
    exact tight_trim v

lemma wrapped_iff (v : Bytes) : Wrapped v ↔
    (v.head? = some doubleQuote ∨ v.head? = some singleQuote) ∧ v.getLast? = v.head? ∧
      2 ≤ v.length := by
  constructor
  · rintro ⟨body, rfl | rfl⟩
    · exact ⟨.inl rfl, getLast_quoted _ body, by simp [Quotes.wrap]⟩
    · exact ⟨.inr rfl, getLast_quoted _ body, by simp [Quotes.wrap]⟩
  · rintro ⟨hhead, hlast, hlen⟩
    cases v with
    | nil => simp at hlen
    | cons c v =>
      rcases v.eq_nil_or_concat with rfl | ⟨body, d, rfl⟩
      · simp at hlen
      · have hcd : d = c := by simpa [List.getLast?_cons] using hlast
        subst hcd
        refine ⟨body, ?_⟩
        simpa [Quotes.wrap] using hhead

lemma unquote_eq {v body : Bytes}
    (h : trim v = Quotes.double.wrap body ∨ trim v = Quotes.single.wrap body) :
    unquote v = body := by
  have hw := (wrapped_iff _).mp ⟨body, h⟩
  simp only [unquote]
  rw [if_pos hw]
  rcases h with h | h <;> simp [h, Quotes.wrap]

lemma unquote_wrap {q : Quotes} {v : Bytes} (h : q.Fits v) : unquote (q.wrap v) = v := by
  have htrim := trim_of_tight (tight_wrap h)
  cases q with
  | double => exact unquote_eq (.inl htrim)
  | single => exact unquote_eq (.inr htrim)
  | bare =>
    simp only [unquote, htrim]
    exact if_neg fun hw => h.2 ((wrapped_iff v).mpr hw)

lemma exists_wrap (v : Bytes) : ∃ q : Quotes, q.Fits (unquote v) ∧ q.wrap (unquote v) = trim v := by
  by_cases hw : Wrapped (trim v)
  · obtain ⟨body, hbody⟩ := hw
    rw [unquote_eq hbody]
    rcases hbody with hbody | hbody
    · exact ⟨.double, trivial, hbody.symm⟩
    · exact ⟨.single, trivial, hbody.symm⟩
  · have hv : unquote v = trim v := if_neg fun hcond => hw ((wrapped_iff _).mpr hcond)
    rw [hv]
    exact ⟨.bare, ⟨trim_of_tight (tight_trim v), hw⟩, rfl⟩

/-! ### Lines -/

namespace Written

variable (w : Written)

/-- Everything up to the sign. -/
def head : Bytes := w.start ++ w.binding.key ++ w.beforeEq.1 ++ [equals]

lemma render_eq : w.render = w.before.1 ++ w.head ++ w.afterEq.1 ++ w.quotes.wrap w.binding.value ++
    w.after.1 := rfl

lemma head_ne : w.head ≠ [] := by simp [head]

lemma word_of_head (r : Bytes) : ∀ b ∈ (w.head ++ r).head?, isWord b := by
  obtain ⟨⟨key, hne, hword, value⟩, before, exported, beforeEq, afterEq, quotes, fits, after⟩ := w
  intro b hb
  cases exported with
  | none =>
    cases key with
    | nil => exact absurd rfl hne
    | cons c key =>
      cases hb
      exact hword _ List.mem_cons_self
  | some s =>
    cases hb
    rfl

lemma tight_head : Tight w.head := by
  refine ⟨fun b hb => ?_, fun b hb => ?_⟩
  · refine isSpace_of_isWord (w.word_of_head [] b ?_)
    rwa [List.append_nil]
  · rw [head, List.getLast?_concat] at hb
    cases hb
    rfl

lemma trim_render : ∃ e : Blank,
    trim w.render = w.head ++ (e.1 ++ w.quotes.wrap w.binding.value) := by
  have htight := tight_wrap w.fits
  by_cases hv : w.quotes.wrap w.binding.value = []
  · refine ⟨⟨[], fun b hb => by cases hb⟩, ?_⟩
    have hblank : ∀ b ∈ w.afterEq.1 ++ w.after.1, isSpace b := by
      intro b hb
      exact (List.mem_append.mp hb).elim (w.afterEq.2 b) (w.after.2 b)
    have hpad := trim_pad w.before ⟨_, hblank⟩ w.tight_head
    rw [render_eq, hv]
    simpa using hpad
  · refine ⟨w.afterEq, ?_⟩
    have hline : Tight (w.head ++ w.afterEq.1 ++ w.quotes.wrap w.binding.value) := by
      refine ⟨fun b hb => ?_, fun b hb => htight.last b ?_⟩
      · rw [List.append_assoc] at hb
        exact isSpace_of_isWord (w.word_of_head _ b hb)
      · rwa [List.getLast?_append_of_ne_nil _ hv] at hb
    have hpad := trim_pad w.before w.after hline
    rw [render_eq]
    simpa using hpad

lemma keyVal_head (e : Blank) {q : Bytes} (hq : ∀ c ∈ q.head?, isSpace c = false) :
    keyVal (w.head ++ (e.1 ++ q)) = some [w.binding.key, q] := by
  cases hs : w.exported with
  | none =>
    have hline : w.head ++ (e.1 ++ q)
        = w.binding.key ++ (w.beforeEq.1 ++ equals :: (e.1 ++ q)) := by
      simp [head, start, hs]
    rw [keyVal, hline, captures_exported_eq_none, Option.none_or]
    exact run_assignment w.binding w.beforeEq e hq []
  | some t =>
    have hline : w.head ++ (e.1 ++ q)
        = exportWord ++ (t.1.1 ++ (w.binding.key ++ (w.beforeEq.1 ++ equals :: (e.1 ++ q)))) := by
      simp [head, start, hs]
    rw [keyVal, hline, captures_exported w.binding t.2 w.beforeEq e hq, Option.some_or]

/-- A binding is read back as it was written. -/
theorem parseLine_render : parseLine w.render = some w.binding.entry := by
  obtain ⟨e, htrim⟩ := w.trim_render
  have hne : w.head ++ (e.1 ++ w.quotes.wrap w.binding.value) ≠ [] :=
    List.append_ne_nil_of_left_ne_nil w.head_ne _
  have hhash : (w.head ++ (e.1 ++ w.quotes.wrap w.binding.value)).head? ≠ some hash := by
    intro h
    exact absurd (w.word_of_head _ hash h) (by decide)
  have hkeyVal := w.keyVal_head e (tight_wrap w.fits).head
  simp only [parseLine, htrim, hkeyVal]
  rw [if_pos ⟨hne, hhash⟩, unquote_wrap w.fits]
  rfl

end Written

lemma of_keyVal {line : Bytes} {caps : List Bytes} (h : keyVal line = some caps) :
    ∃ (b : Binding) (t : Option { bs : Blank // bs.1 ≠ [] }) (s e : Blank),
      line = t.elim [] (fun t => exportWord ++ t.1.1) ++ b.key ++ s.1 ++ [equals] ++ e.1 ++
        b.value ∧ caps = [b.key, b.value] := by
  rcases Option.or_eq_some_iff.mp h with h | ⟨-, h⟩
  · obtain ⟨b, t, s, e, ht, rfl, rfl⟩ := of_captures_exported h
    exact ⟨b, some ⟨t, ht⟩, s, e, by simp, rfl⟩
  · obtain ⟨b, s, e, rfl, rfl⟩ := of_captures_assignment h
    exact ⟨b, none, s, e, by simp, rfl⟩

/-- What adds an entry is a binding that was written. -/
theorem exists_written {raw : Bytes} {entry : Entry} (h : parseLine raw = some entry) :
    ∃ w : Written, w.render = raw ∧ w.binding.entry = entry := by
  simp only [parseLine] at h
  split at h
  · split at h
    · next key val hcaps =>
      obtain ⟨b, t, s, e, hline, hkv⟩ := of_keyVal hcaps
      obtain ⟨rfl, rfl⟩ : key = b.key ∧ val = b.value := by simpa using hkv
      obtain ⟨before, after, hraw⟩ := exists_pad raw
      obtain ⟨e', after', hval⟩ := exists_pad b.value
      obtain ⟨q, hfits, hwrap⟩ := exists_wrap b.value
      have hafterEq : ∀ x ∈ e.1 ++ e'.1, isSpace x := fun x hx =>
        (List.mem_append.mp hx).elim (e.2 x) (e'.2 x)
      have hafter : ∀ x ∈ after'.1 ++ after.1, isSpace x := fun x hx =>
        (List.mem_append.mp hx).elim (after'.2 x) (after.2 x)
      refine ⟨⟨⟨b.key, b.key_ne, b.key_word, unquote b.value⟩, before, t, s, ⟨_, hafterEq⟩, q,
        hfits, ⟨_, hafter⟩⟩, ?_, Option.some.inj h⟩
      rw [Written.render, Written.start]
      simp only [hwrap]
      rw [hraw, hline]
      conv_rhs => rw [hval]
      simp only [List.append_assoc]
    · cases h
  · cases h

lemma dropWhile_render (w : Written) : ∃ c r, isWord c ∧ w.render.dropWhile isSpace = c :: r := by
  have hrest : w.render.dropWhile isSpace
      = w.head ++ (w.afterEq.1 ++ (w.quotes.wrap w.binding.value ++ w.after.1)) := by
    have hspace : ∀ b ∈ (w.head ++ (w.afterEq.1 ++
        (w.quotes.wrap w.binding.value ++ w.after.1))).head?, isSpace b = false :=
      fun b hb => isSpace_of_isWord (w.word_of_head _ b hb)
    rw [w.render_eq]
    simp only [List.append_assoc]
    rw [List.dropWhile_append_of_pos w.before.2, dropWhile_eq_self hspace]
  cases hhead : w.head with
  | nil => exact absurd hhead w.head_ne
  | cons c r =>
    have hword := w.word_of_head [] c
    rw [hhead] at hword
    exact ⟨c, _, hword rfl, by rw [hrest, hhead, List.cons_append]⟩

lemma parseLine_blank (ws : Blank) : parseLine ws.1 = none := by
  by_contra hne
  obtain ⟨e, h⟩ := Option.ne_none_iff_exists'.mp hne
  obtain ⟨w, hw, -⟩ := exists_written h
  obtain ⟨c, r, -, hdrop⟩ := dropWhile_render w
  rw [hw, List.dropWhile_eq_nil_iff.mpr ws.2] at hdrop
  cases hdrop

lemma parseLine_comment (ws : Blank) (text : Bytes) : parseLine (ws.1 ++ hash :: text) = none := by
  by_contra hne
  obtain ⟨e, h⟩ := Option.ne_none_iff_exists'.mp hne
  obtain ⟨w, hw, -⟩ := exists_written h
  obtain ⟨c, r, hword, hdrop⟩ := dropWhile_render w
  rw [hw, List.dropWhile_append_of_pos ws.2, List.dropWhile_cons_of_neg (by decide)] at hdrop
  obtain rfl := (List.cons.inj hdrop).1
  exact absurd hword (by decide)

lemma parseLine_line (l : Line) : parseLine l.render = l.binding?.map Binding.entry := by
  cases l with
  | binding w => exact w.parseLine_render
  | blank ws => exact parseLine_blank ws
  | comment ws text => exact parseLine_comment ws text

/-- A `.env` file gives back the bindings it was written from, and a line that is no binding changes
nothing. -/
theorem parseEnv_reads_back :
    (∀ file : List Line, parseEnv (file.map Line.render)
      = (file.filterMap Line.binding?).map Binding.entry) ∧
    ∀ raw, (∀ w : Written, w.render ≠ raw) → parseEnv [raw] = [] ∧
      ∀ above below, parseEnv (above ++ raw :: below) = parseEnv (above ++ below) := by
  constructor
  · intro file
    rw [parseEnv_eq, List.filterMap_map, List.map_filterMap]
    exact List.filterMap_congr fun l _ => parseLine_line l
  · intro raw hraw
    have hnone : parseLine raw = none := by
      by_contra hne
      obtain ⟨e, h⟩ := Option.ne_none_iff_exists'.mp hne
      obtain ⟨w, hw, -⟩ := exists_written h
      exact hraw w hw
    refine ⟨by rw [parseEnv_eq, List.filterMap_cons_none hnone, List.filterMap_nil], ?_⟩
    intro above below
    simp only [parseEnv_eq, List.filterMap_append]
    rw [List.filterMap_cons_none hnone]

/-- A line without a sign, between two bindings. -/
theorem parseEnv_odd_line :
    parseEnv [asBytes "A=1", asBytes "no binding", asBytes "export B = '2'"]
      = [⟨asBytes "A", asBytes "1"⟩, ⟨asBytes "B", asBytes "2"⟩] := by
  have hraw : ∀ w : Written, w.render ≠ asBytes "no binding" := by
    intro w hw
    have hnone : parseLine (asBytes "no binding") = none := by decide
    have h := w.parseLine_render
    rw [hw, hnone] at h
    cases h
  exact ((parseEnv_reads_back.2 _ hraw).2 [_] [_]).trans (by decide)

end LvimKeyring.EnvImport

import Mathlib.Data.List.Basic

/-!
Streams cut into frames by a delimiter.

A frame is closed by the delimiter and does not contain it. Whoever reads a prefix of a stream
from the end of some frame on reads the frames of the stream, and no others.
-/

namespace LvimKeyring.Lines

variable {α : Type*} (nl : α)

/-- The frames one after the other, each closed. -/
def stream (frames : List (List α)) : List α := frames.flatMap fun l => l ++ [nl]

/-- Nothing, or something that ends where a frame ends. -/
def Whole (bs : List α) : Prop := bs = [] ∨ ∃ init, bs = init ++ [nl]

@[simp] lemma stream_nil : stream nl [] = [] := rfl

lemma stream_cons (l : List α) (ls : List (List α)) :
    stream nl (l :: ls) = l ++ nl :: stream nl ls := by
  simp [stream]

lemma stream_append (ls ms : List (List α)) : stream nl (ls ++ ms) = stream nl ls ++ stream nl ms :=
  List.flatMap_append

variable {nl}

lemma whole_nil : Whole nl [] := .inl rfl

lemma Whole.frame (bs line : List α) : Whole nl (bs ++ line ++ [nl]) := .inr ⟨bs ++ line, rfl⟩

lemma Whole.append {bs bs' : List α} (h : Whole nl bs) (h' : Whole nl bs') :
    Whole nl (bs ++ bs') := by
  rcases h' with rfl | ⟨init, rfl⟩
  · rwa [List.append_nil]
  · exact .inr ⟨bs ++ init, (List.append_assoc _ _ _).symm⟩

lemma Whole.rest {line rest : List α} (h : Whole nl (line ++ nl :: rest)) : Whole nl rest := by
  rcases rest.eq_nil_or_concat with rfl | ⟨init, b, rfl⟩
  · exact whole_nil
  · rcases h with h | ⟨init', h⟩
    · simp at h
    · have hlast : (line ++ nl :: init) ++ [b] = init' ++ [nl] := by
        rw [← h]
        simp
      have hb : [b] = [nl] := (List.append_inj' hlast rfl).2
      exact .inr ⟨init, by rw [List.concat_eq_append, hb]⟩

lemma first_frame {a b x y : List α} (ha : nl ∉ a) (hb : nl ∉ b)
    (h : a ++ nl :: x <+: b ++ nl :: y) : a = b ∧ x <+: y := by
  induction a generalizing b with
  | nil =>
    cases b with
    | nil =>
      rw [List.nil_append, List.nil_append] at h
      exact ⟨rfl, (List.cons_prefix_cons.mp h).2⟩
    | cons c b =>
      rw [List.nil_append, List.cons_append] at h
      have heq := (List.cons_prefix_cons.mp h).1
      exact absurd (heq ▸ List.mem_cons_self) hb
  | cons c a ih =>
    cases b with
    | nil =>
      rw [List.nil_append, List.cons_append] at h
      have heq := (List.cons_prefix_cons.mp h).1
      exact absurd (heq ▸ List.mem_cons_self) ha
    | cons e b =>
      rw [List.cons_append, List.cons_append] at h
      obtain ⟨rfl, hrest⟩ := List.cons_prefix_cons.mp h
      obtain ⟨rfl, hxy⟩ := ih (fun hmem => ha (List.mem_cons_of_mem _ hmem))
        (fun hmem => hb (List.mem_cons_of_mem _ hmem)) hrest
      exact ⟨rfl, hxy⟩

/-- A frame that is read after some whole frames of a stream is one of its frames. -/
theorem mem_of_prefix {frames : List (List α)} (hnl : ∀ l ∈ frames, nl ∉ l) {w line rest : List α}
    (hw : Whole nl w) (hline : nl ∉ line)
    (h : w ++ line ++ nl :: rest <+: stream nl frames) : line ∈ frames := by
  induction frames generalizing w with
  | nil => simp at h
  | cons l ls ih =>
    have hl := hnl l List.mem_cons_self
    rw [stream_cons] at h
    rcases hw with rfl | ⟨init, rfl⟩
    · rw [List.nil_append] at h
      rw [(first_frame hline hl h).1]
      exact List.mem_cons_self
    · -- The first of the whole frames is the first one of the stream.
      obtain ⟨a, x, hax, ha⟩ := List.eq_append_cons_of_mem
        (List.mem_append_right init (List.mem_singleton_self nl))
      have hwhole : Whole nl x := by
        rcases x.eq_nil_or_concat with rfl | ⟨x', c, rfl⟩
        · exact whole_nil
        · have hlast : init ++ [nl] = (a ++ nl :: x') ++ [c] := by
            rw [hax]
            simp
          have hc : [nl] = [c] := (List.append_inj' hlast rfl).2
          exact .inr ⟨x', by rw [hc, List.concat_eq_append]⟩
      rw [hax] at h
      simp only [List.append_assoc, List.cons_append] at h
      have hrest := (first_frame ha hl h).2
      rw [← List.append_assoc] at hrest
      exact List.mem_cons_of_mem _ (ih (fun m hm => hnl m (List.mem_cons_of_mem _ hm)) hwhole hrest)

lemma forall_mem_of_prefix {frames ls : List (List α)} (hnl : ∀ l ∈ frames, nl ∉ l)
    (hls : ∀ l ∈ ls, nl ∉ l) {w part : List α} (hw : Whole nl w)
    (h : w ++ stream nl ls ++ part <+: stream nl frames) : ∀ l ∈ ls, l ∈ frames := by
  induction ls generalizing w with
  | nil => exact fun l hl => by cases hl
  | cons a ls ih =>
    rw [stream_cons] at h
    have hsplit : w ++ (a ++ nl :: stream nl ls) ++ part
        = w ++ a ++ nl :: (stream nl ls ++ part) := by simp
    have hnext : w ++ (a ++ nl :: stream nl ls) ++ part
        = (w ++ a ++ [nl]) ++ stream nl ls ++ part := by simp
    intro l hl
    rcases List.mem_cons.mp hl with rfl | hl
    · rw [hsplit] at h
      exact mem_of_prefix hnl hw (hls l List.mem_cons_self) h
    · rw [hnext] at h
      exact ih (fun m hm => hls m (List.mem_cons_of_mem _ hm)) (Whole.frame w a) h l hl

lemma whole_stream (ls : List (List α)) : Whole nl (stream nl ls) := by
  rcases ls.eq_nil_or_concat with rfl | ⟨ms, l, rfl⟩
  · exact whole_nil
  · refine .inr ⟨stream nl ms ++ l, ?_⟩
    rw [List.concat_eq_append, stream_append, stream_cons]
    simp

variable (nl) in
lemma exists_frames (bs : List α) : ∃ ls part, bs = stream nl ls ++ part ∧ nl ∉ part ∧
    ∀ l ∈ ls, nl ∉ l := by
  induction bs with
  | nil => exact ⟨[], [], rfl, List.not_mem_nil, fun l hl => by cases hl⟩
  | cons b bs ih =>
    obtain ⟨ls, part, rfl, hpart, hls⟩ := ih
    by_cases hb : b = nl
    · subst hb
      refine ⟨[] :: ls, part, rfl, hpart, fun l hl => ?_⟩
      rcases List.mem_cons.mp hl with rfl | hl
      · exact List.not_mem_nil
      · exact hls l hl
    · cases ls with
      | nil =>
        refine ⟨[], b :: part, rfl, fun hmem => ?_, fun l hl => by cases hl⟩
        rcases List.mem_cons.mp hmem with heq | hmem
        · exact hb heq.symm
        · exact hpart hmem
      | cons a ls =>
        refine ⟨(b :: a) :: ls, part, rfl, hpart, fun l hl => ?_⟩
        rcases List.mem_cons.mp hl with rfl | hl
        · intro hmem
          rcases List.mem_cons.mp hmem with heq | hmem
          · exact hb heq.symm
          · exact hls a List.mem_cons_self hmem
        · exact hls l (List.mem_cons_of_mem _ hl)

lemma stream_split {ls : List (List α)} {part line rest : List α} (hls : ∀ l ∈ ls, nl ∉ l)
    (hpart : nl ∉ part) (hline : nl ∉ line) (h : stream nl ls ++ part = line ++ nl :: rest) :
    ∃ ms, ls = line :: ms ∧ rest = stream nl ms ++ part := by
  cases ls with
  | nil =>
    refine absurd ?_ hpart
    rw [stream_nil, List.nil_append] at h
    rw [h]
    exact List.mem_append_right _ List.mem_cons_self
  | cons a ms =>
    rw [stream_cons, List.append_assoc, List.cons_append] at h
    have ha := hls a List.mem_cons_self
    have hpre : line ++ nl :: rest <+: a ++ nl :: (stream nl ms ++ part) := h ▸ List.prefix_rfl
    obtain ⟨rfl, -⟩ := first_frame hline ha hpre
    refine ⟨ms, rfl, ?_⟩
    have htail := List.append_cancel_left h
    exact (List.cons.inj htail).2.symm

/-! ### What is left over -/

variable [DecidableEq α]

variable (nl) in
/-- The part after the last delimiter. -/
def leftover (bs : List α) : List α := (bs.reverse.takeWhile (· ≠ nl)).reverse

lemma leftover_append {w part : List α} (hw : Whole nl w) (hpart : nl ∉ part) :
    leftover nl (w ++ part) = part := by
  have hall : ∀ b ∈ part.reverse, decide (b ≠ nl) = true := by
    intro b hb
    refine decide_eq_true fun heq => hpart ?_
    rw [← heq]
    exact List.mem_reverse.mp hb
  have hstop : w.reverse.takeWhile (· ≠ nl) = [] := by
    rcases hw with rfl | ⟨init, rfl⟩
    · rfl
    · simp
  rw [leftover, List.reverse_append, List.takeWhile_append_of_pos hall, hstop, List.append_nil,
    List.reverse_reverse]

@[simp] lemma leftover_whole {w : List α} (hw : Whole nl w) : leftover nl w = [] := by
  have happ := leftover_append hw (List.not_mem_nil (a := nl))
  rwa [List.append_nil] at happ

/-- What goes on where a prefix of a stream has stopped brings frames of the stream only. -/
theorem frames_of_append {frames : List (List α)} (hnl : ∀ l ∈ frames, nl ∉ l) {seen bytes : List α}
    (h : seen ++ bytes <+: stream nl frames) : ∃ ls part,
      leftover nl seen ++ bytes = stream nl ls ++ part ∧ nl ∉ part ∧ ∀ l ∈ ls, l ∈ frames := by
  obtain ⟨ms, part₀, rfl, hpart₀, -⟩ := exists_frames nl seen
  rw [leftover_append (whole_stream ms) hpart₀]
  obtain ⟨ls, part, heq, hpart, hls⟩ := exists_frames nl (part₀ ++ bytes)
  rw [List.append_assoc, heq, ← List.append_assoc] at h
  exact ⟨ls, part, heq, hpart, forall_mem_of_prefix hnl hls (whole_stream ms) h⟩

end LvimKeyring.Lines

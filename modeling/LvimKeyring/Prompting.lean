import LvimKeyring.Wakeup
import LvimKeyring.Attention

/-!
The prompt for the calls that are parked.

A call that parks sends its signal once, to the editors that are connected by then, and an
editor drops it by what it believes of the lock. Nothing sends it again when the prompt is
closed, or the editor leaves, or the vault is locked once more. In a run where that never comes
while nobody else answers for a parked call, every parked call has its prompt.
-/

namespace LvimKeyring.Prompting

open Rpc Crypto Vault Server Editor Editors Transition
open Daemon hiding step start
open Parking (Heard Turn captured parked sleeping exec_turn gen_of_hold)

variable {Key : Type}

/-! ### The statement -/

/-- The step is that of a client that is no editor. -/
def strange : Event → Bool
  | .agent .connect | .agent (.disconnect _) | .agent (.request _ _ _ _ _) => true
  | _ => false

/-- When everything has been delivered and handled, and a call is parked while some editor is
connected, some connected editor has its prompt open. -/
def ParkedPrompted (s : System Key) : Prop :=
  (∀ e, Still (s.seat e)) → (∀ u, (s.agent.pc u).isIdle = true ∨ sleeping (s.agent.pc u) = true) →
    (∃ r, sleeping (s.agent.pc r) = true) → (∃ e, (s.seat e).client.isRunning = true) →
      ∃ e, (s.seat e).client.isRunning = true ∧ (s.seat e).client.prompting = true

/-- Every parked read has a prompt. -/
def ParkedIsPrompted : Prop :=
  ∀ (Key : Type) (L : Packages Key) (cfg : Config) (fs : FileSystem) (clock : ℕ)
    (es : List Event) (s : System Key), (∀ ev ∈ es, strange ev = false) →
    run (step L cfg) (start Key fs clock) es = some s → ParkedPrompted s

/-! ### The condition -/

def Served (x : Seat) : Prop := ∃ c, x.link = .served c

/-- The thread serves a cancel that has not bumped the generation yet. -/
def cancels : Pc Key → Bool
  | .dispatch method _ => method == "vault.unlock_cancel"
  | .call .unlockCancel => true
  | _ => false

def everyone (_ : ℕ) : Prop := True

/-- Among some editors and threads, somebody answers for the calls that are parked, or there is
no editor to ask. -/
def Attended (s : System Key) (E T : ℕ → Prop) : Prop :=
  (∀ e, E e → ¬ Served (s.seat e)) ∨ (∃ e, E e ∧ Heeds s.agent (s.seat e)) ∨
    ∃ t, T t ∧ cancels (s.agent.pc t) = true

/-- The generation is not the one that the call has captured. -/
def Overtaken (gen : UInt64) (p : Pc Key) : Prop := ∃ start, captured p = some start ∧ start ≠ gen

/-- The call is answered for, or it is to come back by itself. -/
def Covered (s : System Key) (E T : ℕ → Prop) (gen : UInt64) (p : Pc Key) : Prop :=
  s.agent.shared.session.isSome = true ∨ Attended s E T ∨ Overtaken gen p

/-- The editor comes with its prompt open, or with a cancel to be sent. -/
def Brings (x : Seat) : Prop :=
  (settled x).prompting = true ∨ ∃ w ∈ (settled x).waiters, Cancelling w

/-- The steps by which a parked call loses its prompt, or comes to need one, leave somebody to
answer for it. -/
def Attentive (s : System Key) : Event → Prop
  | .agent (.run t env expired) =>
    Heard s.agent (.run t env expired) ∧
      match s.agent.pc t with
      | .signal _ =>
        s.agent.shared.session.isSome = true ∨ Attended s everyone everyone ∨
          ∃ e, Listens s.agent (s.seat e)
      | .call .unlockCancel => ∀ r, parked (s.agent.pc r) = true →
        Covered s everyone (· ≠ t) (s.agent.shared.gen + 1) (s.agent.pc r)
      | .call .lock | .tickTake => ∀ r, parked (s.agent.pc r) = true →
        Attended s everyone everyone ∨ Overtaken s.agent.shared.gen (s.agent.pc r)
      | _ => True
  | .accept e => (∀ b, ¬ Served (s.seat b)) → ∀ r, parked (s.agent.pc r) = true →
    Brings (s.seat e) ∨ s.agent.shared.session.isSome = true ∨
      (∃ t, cancels (s.agent.pc t) = true) ∨ Overtaken s.agent.shared.gen (s.agent.pc r)
  | .hangup e | .stop e _ => ∀ r, parked (s.agent.pc r) = true →
    Covered s (· ≠ e) everyone s.agent.shared.gen (s.agent.pc r)
  | _ => True

/-! ### The sections of the agent -/

variable {L : Packages Key} {cfg : Config} {env : Env} {expired : Bool} {t : ℕ} {origin : ℕ × ℕ}
variable {sh sh' : Shared Key} {p p' : Pc Key} {d d' : State Key} {s s' : System Key}

lemma session_turn (hexec : p.exec L cfg env expired t origin sh = some (sh', p'))
    (h : sh.session.isSome = true) (hlock : p ≠ .call .lock) (htake : p ≠ .tickTake) :
    sh'.session.isSome = true := by
  have hsession := (Announce.exec_told hexec).session
  have hkept (hsame : sh'.session.isNone = sh.session.isNone) : sh'.session.isSome = true := by
    cases hs : sh'.session with
    | some s => rfl
    | none =>
      rw [hs] at hsame
      cases hs₀ : sh.session <;> rw [hs₀] at h hsame
      · cases h
      · cases hsame
  cases p with
  | install s k =>
    cases hexec
    rfl
  | call k =>
    cases k with
    | lock => exact absurd rfl hlock
    | _ => exact hkept hsession
  | tickTake => exact absurd rfl htake
  | _ => exact hkept hsession

lemma cancels_turn (hexec : p.exec L cfg env expired t origin sh = some (sh', p'))
    (h : cancels p = true) (hp : p ≠ .call .unlockCancel) : cancels p' = true := by
  cases p with
  | dispatch method params =>
    obtain rfl : method = "vault.unlock_cancel" := eq_of_beq h
    have hprepare : prepare env.random "vault.unlock_cancel" params = .ok .unlockCancel := rfl
    simp only [Pc.exec, hprepare] at hexec
    cases hexec
    rfl
  | call k =>
    cases k with
    | unlockCancel => exact absurd rfl hp
    | _ => cases h
  | _ => cases h

lemma cancels_rouse (p : Pc Key) : cancels (rouse p) = cancels p := by
  cases p <;> rfl

lemma parked_rouse (p : Pc Key) : parked (rouse p) = parked p := by
  cases p <;> rfl

lemma captured_rouse (p : Pc Key) : captured (rouse p) = captured p := by
  cases p <;> rfl

lemma parked_outside (h : Parking.inner p = false) : parked p = false := by
  cases p <;> first | rfl | cases h

lemma parked_self (h : Turn t expired sh sh' p p') (hp' : parked p' = true) :
    (∃ op, p = .signal op) ∨ parked p = true := by
  cases h with
  | signal => exact .inl ⟨_, rfl⟩
  | capture | notFound | sleep | relock => exact .inr rfl
  | wake _ hp =>
    rw [parked_outside hp] at hp'
    cases hp'
  | outside _ hout =>
    rw [parked_outside hout] at hp'
    cases hp'
  | _ => cases hp'

lemma overtaken_self (h : Turn t expired sh sh' p p') (hp : parked p = true)
    (hp' : parked p' = true) (ho : Overtaken sh.gen p) :
    Overtaken sh'.gen p' ∧ sleeping p' = false := by
  obtain ⟨start, hstart, hne⟩ := ho
  cases h with
  | notFound _ hsh => exact ⟨⟨start, hstart, by rwa [hsh]⟩, rfl⟩
  | sleep hgen =>
    cases hstart
    exact absurd hgen.symm hne
  | relock _ hsh => exact ⟨⟨start, hstart, by rwa [gen_of_hold hsh]⟩, rfl⟩
  | outside hin =>
    rw [parked_outside hin] at hp
    cases hp
  | wake | cancel | cancelled | signal | install | resetFails | announceUnlocked => cases hp
  | capture => cases hstart
  | found | refused => cases hp'

lemma bump_turn
    (hexec : (Pc.call .unlockCancel).exec L cfg env expired t origin sh = some (sh', p')) :
    p' = .wakeCancelled ∧ sh'.gen = sh.gen + 1 := by
  simp only [Pc.exec, begin] at hexec
  split at hexec <;> cases hexec
  exact ⟨rfl, rfl⟩

lemma taken_turn (hp : p = .call .lock ∨ p = .tickTake)
    (hexec : p.exec L cfg env expired t origin sh = some (sh', p')) :
    parked p' = false ∧ sh'.gen = sh.gen := by
  rcases hp with rfl | rfl <;> cases hexec <;> exact ⟨by split <;> rfl, rfl⟩

/-! ### Cancels that are still to notify -/

/-- A call that sleeps though it is overtaken is about to be woken. -/
def Bumped (d : State Key) : Prop :=
  ∀ r, sleeping (d.pc r) = true → Overtaken d.shared.gen (d.pc r) → ∃ u, d.pc u = .wakeCancelled

lemma sleeping_rouse (p : Pc Key) : sleeping (rouse p) = false := by
  cases p <;> rfl

lemma parked_of_sleeping (h : sleeping p = true) : parked p = true := by
  cases p <;> first | rfl | cases h

lemma wakeCancelled_self (h : Turn t expired sh sh' p p') (hp : sleeping p' = true) :
    ∃ op, p = .decide op sh.gen ∧ sh'.gen = sh.gen ∧ captured p' = some sh.gen := by
  cases h with
  | sleep hgen hsh => exact ⟨_, by rw [hgen], gen_of_hold hsh, by rw [hgen]; rfl⟩
  | wake _ hout =>
    rw [Parking.sleeping_outside hout] at hp
    cases hp
  | outside _ hout =>
    rw [Parking.sleeping_outside hout] at hp
    cases hp
  | _ => cases hp

lemma Bumped.turn (h : Bumped d) (hd : Daemon.step L cfg d (.run t env expired) = some d') :
    Bumped d' := by
  obtain ⟨p, hexec, hp, hothers⟩ := step_run hd
  have hturn := exec_turn hexec
  intro r hsleep ⟨start, hstart, hne⟩
  by_cases hrt : r = t
  · subst hrt
    rw [hp] at hsleep hstart
    obtain ⟨op, -, hgen, hcap⟩ := wakeCancelled_self hturn hsleep
    rw [hcap] at hstart
    exact absurd ((Option.some.inj hstart).symm.trans hgen.symm) hne
  · rw [hothers r hrt] at hsleep hstart
    split at hsleep
    · rw [sleeping_rouse] at hsleep
      cases hsleep
    · rename_i hquiet
      rw [if_neg hquiet] at hstart
      rcases hturn.gen_cases with hgen | ⟨-, hp', -⟩
      · obtain ⟨u, hu⟩ := h r hsleep ⟨start, hstart, hgen ▸ hne⟩
        have hut : u ≠ t := by
          rintro rfl
          rw [hu] at hquiet
          exact hquiet rfl
        exact ⟨u, by rw [hothers u hut, if_neg hquiet, hu]⟩
      · exact ⟨t, by rw [hp, hp']⟩

lemma moved_parked (h : Moved p p') (hp' : parked p' = true) :
    parked p = true ∧ captured p' = captured p := by
  cases h with
  | same => exact ⟨hp', rfl⟩
  | rouse => exact ⟨rfl, rfl⟩
  | request | tick => cases hp'

lemma Bumped.quiet (h : Bumped d) {a : Action} (hd : Daemon.step L cfg d a = some d')
    (ha : ∀ t env expired, a ≠ .run t env expired) : Bumped d' := by
  have hq := step_quiet hd ha
  intro r hsleep ⟨start, hstart, hne⟩
  rw [Shared.gen, hq.world] at hne
  have hcap := (moved_parked (hq.moved r) (parked_of_sleeping hsleep)).2
  have hslept : sleeping (d.pc r) = true := by
    have hm := hq.moved r
    generalize d.pc r = p at hm
    generalize d'.pc r = p' at hm hsleep
    cases hm with
    | same => exact hsleep
    | rouse | request | tick => cases hsleep
  obtain ⟨u, hu⟩ := h r hslept ⟨start, hcap ▸ hstart, hne⟩
  exact ⟨u, Parking.wakeCancelled_moved (hq.moved u) hu⟩

/-! ### The invariant -/

structure Inv (s : System Key) : Prop where
  wired : Wired s
  heard : Parking.Inv s.agent
  bumped : Bumped s.agent
  covered : ∀ r, parked (s.agent.pc r) = true →
    Covered s everyone everyone s.agent.shared.gen (s.agent.pc r)

lemma Attended.next {E T : ℕ → Prop} (h : Attended s E T)
    (hserved : ∀ e, Served (s'.seat e) → E e ∧ Served (s.seat e))
    (hheeds : ∀ e, E e → Heeds s.agent (s.seat e) →
      Heeds s'.agent (s'.seat e) ∨ ∃ t, cancels (s'.agent.pc t) = true)
    (hcancels : ∀ t, T t → cancels (s.agent.pc t) = true → cancels (s'.agent.pc t) = true) :
    Attended s' everyone everyone := by
  rcases h with hnobody | ⟨e, he, hheeds'⟩ | ⟨t, ht, hcancel⟩
  · refine .inl fun e _ hs => ?_
    obtain ⟨he, hs'⟩ := hserved e hs
    exact hnobody e he hs'
  · rcases hheeds e he hheeds' with hkept | ⟨t, ht⟩
    · exact .inr (.inl ⟨e, trivial, hkept⟩)
    · exact .inr (.inr ⟨t, trivial, ht⟩)
  · exact .inr (.inr ⟨t, trivial, hcancels t ht hcancel⟩)

/-! ### A turn -/

/-- The system after a turn. -/
def afterTurn (s : System Key) (d : State Key) : System Key :=
  { s with agent := d, seat := fun e => (s.seat e).hear s.agent.shared.channel d.shared.channel }

lemma Attended.turn {T : ℕ → Prop} (hwired : Wired s) (h : Attended s everyone T)
    (hd : Daemon.step L cfg s.agent (.run t env expired) = some d)
    (hlocked : d.shared.session = none)
    (ht : ∀ u, T u → cancels (s.agent.pc u) = true → u = t → s.agent.pc t ≠ .call .unlockCancel) :
    Attended (afterTurn s d) everyone everyone := by
  obtain ⟨p, hexec, hp, hothers⟩ := step_run hd
  refine h.next (fun e hs => ⟨trivial, ?_⟩) (fun e _ hheeds => .inl ?_) fun u hu hcancel => ?_
  · obtain ⟨c, hc⟩ := hs
    have hlink : ((s.seat e).hear s.agent.shared.channel d.shared.channel).link
        = (s.seat e).link := by
      rw [hear_turn hd]
    exact ⟨c, hlink ▸ hc⟩
  · rcases hheeds.turn (hwired.seated e) hd with hkept | hopen
    · exact hkept
    · rw [hlocked] at hopen
      cases hopen
  · change cancels (d.pc u) = true
    by_cases hut : u = t
    · subst hut
      rw [hp]
      exact cancels_turn hexec hcancel (ht u hu hcancel rfl)
    · rw [hothers u hut]
      split
      · rwa [cancels_rouse]
      · exact hcancel

lemma parked_other (hd : Daemon.step L cfg d (.run t env expired) = some d') {r : ℕ} (hr : r ≠ t)
    (hp : parked (d'.pc r) = true) :
    parked (d.pc r) = true ∧ captured (d'.pc r) = captured (d.pc r) := by
  obtain ⟨p, -, -, hothers⟩ := step_run hd
  rw [hothers r hr] at hp ⊢
  split
  · rename_i hn
    rw [if_pos hn, parked_rouse] at hp
    exact ⟨hp, captured_rouse _⟩
  · rename_i hn
    rw [if_neg hn] at hp
    exact ⟨hp, rfl⟩

/-- A turn by which no call loses its prompt. -/
lemma covered_plain (h : Inv s) (hd : Daemon.step L cfg s.agent (.run t env expired) = some d)
    (hlocked : d.shared.session = none) (hsignal : ∀ op, s.agent.pc t ≠ .signal op)
    (hcancel : s.agent.pc t ≠ .call .unlockCancel) (hlock : s.agent.pc t ≠ .call .lock)
    (htake : s.agent.pc t ≠ .tickTake) {r : ℕ} (hr : parked (d.pc r) = true) :
    Covered (afterTurn s d) everyone everyone d.shared.gen (d.pc r) := by
  obtain ⟨p, hexec, hp, hothers⟩ := step_run hd
  have hturn := exec_turn hexec
  have hgen : d.shared.gen = s.agent.shared.gen := by
    rcases hturn.gen_cases with hsame | ⟨hcontra, -⟩
    · exact hsame
    · exact absurd hcontra hcancel
  have hold : parked (s.agent.pc r) = true := by
    by_cases hrt : r = t
    · subst hrt
      rw [hp] at hr
      rcases parked_self hturn hr with ⟨op, hcontra⟩ | hparked
      · exact absurd hcontra (hsignal op)
      · exact hparked
    · exact (parked_other hd hrt hr).1
  rcases h.covered r hold with hopen | hattended | hovertaken
  · have hkept := session_turn hexec hopen hlock htake
    rw [hlocked] at hkept
    cases hkept
  · exact .inr (.inl (hattended.turn h.wired hd hlocked fun _ _ _ _ => hcancel))
  · refine .inr (.inr ?_)
    by_cases hrt : r = t
    · subst hrt
      rw [hp] at hr ⊢
      exact (overtaken_self hturn hold hr hovertaken).1
    · obtain ⟨start, hstart, hne⟩ := hovertaken
      exact ⟨start, (parked_other hd hrt hr).2.trans hstart, by rwa [hgen]⟩

lemma covered_other (h : Inv s) (hd : Daemon.step L cfg s.agent (.run t env expired) = some d)
    (hlocked : d.shared.session = none) {T : ℕ → Prop} {r : ℕ} (hr : parked (d.pc r) = true)
    (hrt : r ≠ t) (hT : ∀ u, T u → u = t → s.agent.pc t ≠ .call .unlockCancel)
    (hG : Attended s everyone T ∨ Overtaken d.shared.gen (s.agent.pc r)) :
    Covered (afterTurn s d) everyone everyone d.shared.gen (d.pc r) := by
  rcases hG with hattended | ⟨start, hstart, hne⟩
  · exact .inr (.inl (hattended.turn h.wired hd hlocked fun u hu _ heq => hT u hu heq))
  · exact .inr (.inr ⟨start, (parked_other hd hrt hr).2.trans hstart, hne⟩)

lemma covered_turn (h : Inv s) (hd : Daemon.step L cfg s.agent (.run t env expired) = some d)
    (hG : Attentive s (.agent (.run t env expired))) {r : ℕ} (hr : parked (d.pc r) = true) :
    Covered (afterTurn s d) everyone everyone d.shared.gen (d.pc r) := by
  cases hlocked : d.shared.session with
  | some k =>
    left
    change d.shared.session.isSome = true
    rw [hlocked]
    rfl
  | none =>
    obtain ⟨p, hexec, hp, -⟩ := step_run hd
    have hlast (hself : parked p = false) : r ≠ t := by
      rintro rfl
      rw [hp, hself] at hr
      cases hr
    have hnotOpen (hlock : s.agent.pc t ≠ .call .lock) (htake : s.agent.pc t ≠ .tickTake) :
        ¬ s.agent.shared.session.isSome = true := by
      intro hopen
      have hkept := session_turn hexec hopen hlock htake
      rw [hlocked] at hkept
      cases hkept
    by_cases hsignal : ∃ op, s.agent.pc t = .signal op
    · obtain ⟨op, hop⟩ := hsignal
      have hG' := hG.2
      simp only [hop] at hG'
      rcases hG' with hopen | hattended | ⟨e, hlistens⟩
      · exact absurd hopen (hnotOpen (by simp [hop]) (by simp [hop]))
      · -- The signal is this call's prompt, where somebody listens.
        exact .inr (.inl (hattended.turn h.wired hd hlocked fun _ _ _ _ => by simp [hop]))
      · rcases hlistens.signal (h.wired.seated e) hop hd with hheeds | hopen
        · exact .inr (.inl (.inr (.inl ⟨e, trivial, hheeds⟩)))
        · rw [hlocked] at hopen
          cases hopen
    by_cases hcancel : s.agent.pc t = .call .unlockCancel
    · have hG' := hG.2
      simp only [hcancel] at hG'
      rw [hcancel] at hexec
      obtain ⟨rfl, hgen⟩ := bump_turn hexec
      have hrt := hlast rfl
      rcases hG' r (parked_other hd hrt hr).1 with hopen | hrest
      · -- The bump overtakes every call that has captured the generation.
        exact absurd hopen (hnotOpen (by simp [hcancel]) (by simp [hcancel]))
      · rw [← hgen] at hrest
        exact covered_other h hd hlocked hr hrt (fun u hne heq => absurd heq hne) hrest
    by_cases htaken : s.agent.pc t = .call .lock ∨ s.agent.pc t = .tickTake
    · have hself := taken_turn htaken hexec
      have hrt := hlast hself.1
      -- A taken session locks the vault with calls still parked; `hG` is about them.
      have hG' : Attended s everyone everyone ∨
          Overtaken s.agent.shared.gen (s.agent.pc r) := by
        have hguard := hG.2
        rcases htaken with hpc | hpc <;> simp only [hpc] at hguard <;>
          exact hguard r (parked_other hd hrt hr).1
      rw [← hself.2] at hG'
      exact covered_other h hd hlocked hr hrt (fun _ _ _ => hcancel) hG'
    · exact covered_plain h hd hlocked (fun op hop => hsignal ⟨op, hop⟩) hcancel
        (fun hpc => htaken (.inl hpc)) (fun hpc => htaken (.inr hpc)) hr

/-! ### The other steps -/

lemma covered_quiet {a : Action} (h : Inv s) (hd : Daemon.step L cfg s.agent a = some s'.agent)
    (ha : ∀ t env expired, a ≠ .run t env expired)
    (hnext : Attended s everyone everyone → Attended s' everyone everyone) {r : ℕ}
    (hr : parked (s'.agent.pc r) = true) :
    Covered s' everyone everyone s'.agent.shared.gen (s'.agent.pc r) := by
  have hq := step_quiet hd ha
  obtain ⟨hold, hcap⟩ := moved_parked (hq.moved r) hr
  have hgen : s'.agent.shared.gen = s.agent.shared.gen := by
    simp only [Shared.gen, hq.world]
  rcases h.covered r hold with hopen | hattended | ⟨start, hstart, hne⟩
  · left
    rwa [Shared.session, hq.world]
  · exact .inr (.inl (hnext hattended))
  · exact .inr (.inr ⟨start, hcap.trans hstart, by rwa [hgen]⟩)

lemma cancels_moved (h : Moved p p') (hp : cancels p = true) : cancels p' = true := by
  cases h with
  | same => exact hp
  | rouse | request | tick => cases hp

lemma covered_seat {e : ℕ} {y : Seat} (h : Inv s)
    (hserved : Served y → Served (s.seat e)) (hheeds : Heeds s.agent (s.seat e) → Heeds s.agent y)
    {r : ℕ} (hr : parked (s.agent.pc r) = true) :
    Covered (s.withSeat e y) everyone everyone s.agent.shared.gen (s.agent.pc r) := by
  rcases h.covered r hr with hopen | hattended | hovertaken
  · exact .inl hopen
  · refine .inr (.inl (hattended.next (fun b hs => ⟨trivial, ?_⟩) (fun b _ hb => .inl ?_)
      fun u _ hu => hu))
    · rw [seat_withSeat] at hs
      split at hs
      · rename_i hbe
        rw [hbe]
        exact hserved hs
      · exact hs
    · rw [seat_withSeat]
      split
      · rename_i hbe
        rw [hbe] at hb
        exact hheeds hb
      · exact hb
  · exact .inr (.inr hovertaken)

lemma served_of_heeds {x : Seat} (h : Heeds d x) : Served x := by
  rcases h with ⟨c, hc, -⟩ | ⟨c, hc, -⟩ <;> exact ⟨c, hc⟩

lemma Attended.gone {e : ℕ} (h : Attended s (· ≠ e) everyone)
    (hseat : ∀ b, b ≠ e → s'.seat b = s.seat b) (hgone : ¬ Served (s'.seat e))
    (hheeds : ∀ b, b ≠ e → Heeds s.agent (s.seat b) → Heeds s'.agent (s.seat b))
    (hcancels : ∀ t, cancels (s.agent.pc t) = true → cancels (s'.agent.pc t) = true) :
    Attended s' everyone everyone := by
  refine h.next (fun b hs => ?_) (fun b hb hheeds' => .inl ?_) fun t _ ht => hcancels t ht
  · have hbe : b ≠ e := by
      rintro rfl
      exact hgone hs
    exact ⟨hbe, hseat b hbe ▸ hs⟩
  · rw [hseat b hb]
    exact hheeds b hb hheeds'

lemma covered_leave {e : ℕ} {client : Client} {wire : List Line} {gen : UInt64}
    (h : Covered s (· ≠ e) everyone gen p) :
    Covered (s.leave e client wire) everyone everyone gen p := by
  rcases h with hopen | hattended | hovertaken
  · exact .inl hopen
  · refine .inr (.inl (hattended.gone (e := e) (fun b hb => ?_) ?_ (fun _ _ hb => hb)
      fun _ ht => ht))
    · simp only [System.leave, Function.update_of_ne hb]
    · rintro ⟨c, hc⟩
      simp only [System.leave, Function.update_self] at hc
      cases hc
  · exact .inr (.inr hovertaken)

lemma Attended.without {e : ℕ} (h : Attended s everyone everyone) (he : ¬ Served (s.seat e)) :
    Attended s (· ≠ e) everyone := by
  rcases h with hnobody | ⟨b, -, hb⟩ | hcancels
  · exact .inl fun b _ => hnobody b trivial
  · refine .inr (.inl ⟨b, ?_, hb⟩)
    rintro rfl
    exact he (served_of_heeds hb)
  · exact .inr (.inr hcancels)

lemma same_of_foreign (h : Wired s) {a : Action} (hd : Daemon.step L cfg s.agent a = some d)
    (ha : ∀ t env expired, a ≠ .run t env expired) (hf : foreign s.owner a = true) {e c : ℕ}
    (hc : (s.seat e).link = .served c) : SameFor c s.agent d := by
  refine same_of_quiet hd ha fun t id method params heq => ?_
  subst heq
  simp only [foreign, h.owner e c (by rw [hc]; rfl)] at hf
  cases hf

lemma connect_pc (hd : Daemon.step L cfg d .connect = some d') : d'.pc = d.pc := by
  cases hd
  rfl

/-- An editor that is accepted is one more to ask. -/
lemma covered_accept {e : ℕ} (h : Inv s) (hlink : (s.seat e).link = .queued)
    (hd : Daemon.step L cfg s.agent .connect = some s'.agent)
    (hseat : s'.seat = Function.update s.seat e
      { s.seat e with link := .served s.agent.shared.nextClient })
    (hG : Attentive s (.accept e)) {r : ℕ} (hr : parked (s'.agent.pc r) = true) :
    Covered s' everyone everyone s'.agent.shared.gen (s'.agent.pc r) := by
  have hpc := connect_pc hd
  have hshared : s'.agent.shared.world = s.agent.shared.world := (step_quiet hd (by simp)).world
  have hsame : ∀ c, SameFor c s.agent s'.agent := fun c => same_of_quiet hd (by simp) (by simp)
  have hother : ∀ b, Heeds s.agent (s.seat b) → Heeds s'.agent (s'.seat b) := by
    intro b hb
    have hbe : b ≠ e := by
      rintro rfl
      obtain ⟨c, hc⟩ := served_of_heeds hb
      rw [hlink] at hc
      cases hc
    rw [hseat, Function.update_of_ne hbe]
    exact hb.of_same fun c _ => hsame c
  -- The new client was named by no thread before it was accepted.
  have hnew : Brings (s.seat e) → Heeds s'.agent (s'.seat e) := by
    intro hbrings
    rw [hseat, Function.update_self]
    rcases hbrings with hprompting | hwaits
    · refine .inl ⟨_, rfl, hprompting, fun t ht => ?_⟩
      have hback := (hsame _).back t ht
      have hlt := h.wired.origins t hback.1
      rw [hback.2] at hlt
      exact absurd hlt (lt_irrefl _)
    · exact .inr ⟨_, rfl, .inl hwaits⟩
  have hovertaken : Overtaken s.agent.shared.gen (s.agent.pc r) →
      Overtaken s'.agent.shared.gen (s'.agent.pc r) := by
    rintro ⟨start, hstart, hne⟩
    exact ⟨start, by rwa [hpc], by rwa [Shared.gen, hshared]⟩
  rw [hpc] at hr
  -- With nobody connected the editor that is accepted has to bring an answer, or there is none.
  by_cases hnobody : ∀ b, ¬ Served (s.seat b)
  · rcases hG hnobody r hr with hbrings | hopen | ⟨t, ht⟩ | hover
    · exact .inr (.inl (.inr (.inl ⟨e, trivial, hnew hbrings⟩)))
    · left
      rwa [Shared.session, hshared]
    · exact .inr (.inl (.inr (.inr ⟨t, trivial, by rwa [hpc]⟩)))
    · exact .inr (.inr (hovertaken hover))
  · rcases h.covered r hr with hopen | hattended | hover
    · left
      rwa [Shared.session, hshared]
    · rcases hattended with hnone | ⟨b, -, hb⟩ | ⟨t, -, ht⟩
      · exact absurd (fun b => hnone b trivial) hnobody
      · exact .inr (.inl (.inr (.inl ⟨b, trivial, hother b hb⟩)))
      · exact .inr (.inl (.inr (.inr ⟨t, trivial, by rwa [hpc]⟩)))
    · exact .inr (.inr (hovertaken hover))

/-- The agent reads a request of an editor. -/
lemma attended_read {e c : ℕ} {m : Sent} {rest : List Sent} (h : Wired s)
    (hlink : (s.seat e).link = .served c) (hout : (s.seat e).outgoing = m :: rest)
    (hd : Daemon.step L cfg s.agent (.request t c m.id m.method m.params) = some d)
    (hattended : Attended s everyone everyone) :
    Attended (({ s with agent := d } : System Key).withSeat e
      { s.seat e with outgoing := rest }) everyone everyone := by
  obtain ⟨-, hidle, hpc, -, -, hothers⟩ := request_threads hd
  refine hattended.next (fun b hs => ⟨trivial, ?_⟩) (fun b _ hb => ?_) fun u _ hu => ?_
  · rw [seat_withSeat] at hs
    split at hs
    · rename_i hbe
      rw [hbe]
      exact hs
    · exact hs
  · rw [seat_withSeat]
    split
    · rename_i hbe
      rw [hbe] at hb
      rcases hb.read hout hd with hkept | hcancel
      · exact .inl hkept
      · refine .inr ⟨t, ?_⟩
        change cancels (d.pc t) = true
        rw [hpc]
        exact beq_iff_eq.mpr hcancel
    · rename_i hbe
      refine .inl (hb.of_same fun c' hc' => same_of_quiet hd (by simp) ?_)
      intro t' id method params heq
      cases heq
      exact hbe (h.only (by rw [hlink]; rfl) (by rw [hc']; rfl))
  · change cancels (d.pc u) = true
    have hut : u ≠ t := by
      rintro rfl
      rw [hidle] at hu
      cases hu
    rwa [(hothers u hut).1]

lemma covered_took {ev : Event} (h : Inv s) (hG : Attentive s ev) (hs : Took L cfg s ev s')
    {r : ℕ} (hr : parked (s'.agent.pc r) = true) :
    Covered s' everyone everyone s'.agent.shared.gen (s'.agent.pc r) := by
  cases hs with
  | turn hrun hd => exact covered_turn h hd hG hr
  | quiet hrun ha hf hd =>
    refine covered_quiet h hd ha (fun hattended => ?_) hr
    refine hattended.next (fun e he => ⟨trivial, he⟩) (fun e _ he => .inl ?_) fun t _ ht => ?_
    · exact he.of_same fun c hc => same_of_foreign h.wired hd ha hf hc
    · exact cancels_moved ((step_quiet hd ha).moved t) ht
  | exit hrun => cases hr
  | spawn hrun => cases hr
  | connect hrun hpipe =>
    refine covered_seat h (fun hserved => ?_) (fun hheeds => ?_) hr
    · obtain ⟨c, hc⟩ := hserved
      cases hc
    · obtain ⟨c, hc⟩ := served_of_heeds hheeds
      rw [(h.wired.seated _).closed.mpr hpipe] at hc
      cases hc
  | accept hrun hlink hd => exact covered_accept h hlink hd rfl hG hr
  | read hrun hlink hout hd =>
    exact covered_quiet h hd (by simp) (attended_read h.wired hlink hout hd) hr
  | hangup hrun hlink hd =>
    rename_i e c d
    have hq := step_quiet hd (by simp)
    have hr' : parked (d.pc r) = true := hr
    obtain ⟨hold, hcap⟩ := moved_parked (hq.moved r) hr'
    -- The call was parked before: its own answer for it stands unless that was the editor gone.
    rcases hG r hold with hopen | hattended | ⟨start, hstart, hne⟩
    · left
      change d.shared.session.isSome = true
      rwa [Shared.session, hq.world]
    · refine .inr (.inl (hattended.gone (e := e) (fun b hb => ?_) ?_ (fun b hb hheeds => ?_)
        fun t ht => cancels_moved (hq.moved t) ht))
      · rw [seat_withSeat, if_neg hb]
      · rintro ⟨c', hc'⟩
        rw [seat_withSeat, if_pos rfl] at hc'
        cases hc'
      · exact hheeds.of_same fun c' _ => same_of_quiet hd (by simp) (by simp)
    · refine .inr (.inr ⟨start, hcap.trans hstart, ?_⟩)
      change start ≠ d.shared.gen
      rwa [Shared.gen, hq.world]
  | deliver hwire hopen =>
    refine covered_seat h (fun hserved => ?_) (fun hheeds => hheeds.deliver hwire) hr
    exact hserved
  -- No agent sends a response that fails a handshake.
  | refused hwire hpipe hclosed =>
    have hkept := pipe_onMessage ((h.wired.seated _).calm_head hwire)
    rw [hclosed, hpipe] at hkept
    cases hkept
  | cut hlink =>
    refine covered_seat h (fun hserved => ?_) (fun hheeds => ?_) hr
    · exact hserved
    · obtain ⟨c, hc⟩ := served_of_heeds hheeds
      rw [hlink] at hc
      cases hc
  | eof hwire hlink =>
    refine covered_leave ?_
    rcases h.covered r hr with hopen | hattended | hovertaken
    · exact .inl hopen
    · refine .inr (.inl (hattended.without ?_))
      rintro ⟨c, hc⟩
      rcases hlink with hl | ⟨c', hl⟩ <;> rw [hl] at hc <;> cases hc
    · exact .inr (.inr hovertaken)
  -- The user may quit the editor that is to answer: this is what `Attentive` asks about.
  | stop => exact covered_leave (hG r hr)
  | send hsend =>
    refine covered_seat h (fun hserved => ?_)
      (fun hheeds => hheeds.send (h.wired.seated _) hsend) hr
    exact hserved
  | user hinput =>
    refine covered_seat h (fun hserved => ?_)
      (fun hheeds => hheeds.user (h.wired.seated _) hinput) hr
    exact hserved

lemma agent_took {ev : Event} (h : Inv s) (hG : Attentive s ev) (hs : Took L cfg s ev s') :
    Parking.Inv s'.agent ∧ Bumped s'.agent := by
  have hquiet {a : Action} {d : State Key} (hd : Daemon.step L cfg s.agent a = some d)
      (ha : ∀ t env expired, a ≠ .run t env expired) : Parking.Inv d ∧ Bumped d := by
    refine ⟨Parking.inv_step h.heard ?_ hd, h.bumped.quiet hd ha⟩
    cases a with
    | run t env expired => exact absurd rfl (ha t env expired)
    | _ => trivial
  have hstart (fs : FileSystem) (clock : ℕ) :
      Parking.Inv (Daemon.start Key fs clock) ∧ Bumped (Daemon.start Key fs clock) :=
    ⟨Parking.inv_start fs clock, fun r hr => by cases hr⟩
  cases hs with
  | turn hrun hd => exact ⟨Parking.inv_step h.heard hG.1 hd, h.bumped.turn hd⟩
  | quiet hrun ha hf hd => exact hquiet hd ha
  | exit | spawn => exact hstart _ _
  | accept hrun hlink hd => exact hquiet hd (by simp)
  | read hrun hlink hout hd => exact hquiet hd (by simp)
  | hangup hrun hlink hd => exact hquiet hd (by simp)
  | connect | deliver | refused | cut | eof | stop | send | user => exact ⟨h.heard, h.bumped⟩

theorem inv_step {ev : Event} (h : Inv s) (hG : Attentive s ev)
    (hstep : step L cfg s ev = some s') :
    Inv s' := by
  have hs := took_of_step hstep
  obtain ⟨hheard, hbumped⟩ := agent_took h hG hs
  exact ⟨h.wired.took hs, hheard, hbumped, fun r hr => covered_took h hG hs hr⟩

lemma inv_start (fs : FileSystem) (clock : ℕ) : Inv (start Key fs clock) where
  wired := wired_start fs clock
  heard := Parking.inv_start fs clock
  bumped r hr := by cases hr
  covered r hr := by cases hr

/-! ### When everything has been handled -/

lemma running_of_still {x : Seat} (hx : Seated d x) (hstill : Still x) (hserved : Served x)
    (hquiet : ∀ u, (d.pc u).isIdle = true ∨ sleeping (d.pc u) = true) :
    x.client.isRunning = true := by
  obtain ⟨hwire, hout, -, -⟩ := hstill
  obtain ⟨c, hc⟩ := hserved
  have hpipe : x.client.pipe = true := by
    cases hp : x.client.pipe with
    | true => rfl
    | false =>
      rw [hx.closed.mpr hp] at hc
      cases hc
  have hready : x.client.ready = true := by
    rcases hx.shaking c hc with hr | ⟨m, hm, -⟩ | ⟨t, ht, hk⟩
    · rwa [hwire, settle_nil] at hr
    · rw [hout] at hm
      cases hm
    · have hgreets := hx.attended c (by rw [hc]; rfl) t ht .handshake hk
      rcases hquiet t with hidle | hsleep
      · rw [isIdle_eq hidle] at hgreets
        cases hgreets
      · cases hp : d.pc t with
        | asleep op start =>
          rw [hp] at hgreets
          cases hgreets
        | _ =>
          rw [hp] at hsleep
          cases hsleep
  simp [Client.isRunning, hready, hpipe]

lemma parkedPrompted_of_inv (h : Inv s) : ParkedPrompted s := by
  rintro hstill hquiet ⟨r, hr⟩ ⟨e, he⟩
  -- Nothing that a thread is still to do is to come from one that is idle or asleep.
  have hnone {P : Pc Key → Prop} (hidle : ¬ P .idle) (hasleep : ∀ op start, ¬ P (.asleep op start))
      (u : ℕ) : ¬ P (s.agent.pc u) := by
    intro hP
    rcases hquiet u with hu | hu
    · rw [isIdle_eq hu] at hP
      exact hidle hP
    · cases hp : s.agent.pc u with
      | asleep op start =>
        rw [hp] at hP
        exact hasleep op start hP
      | _ =>
        rw [hp] at hu
        cases hu
  have hserved : Served (s.seat e) := by
    rcases (hstill e).2.2.2 with hlink | hserved
    · have hpipe := (h.wired.seated e).closed.mp hlink
      simp [Client.isRunning, hpipe] at he
    · exact hserved
  rcases h.covered r (parked_of_sleeping hr) with hopen | hattended | hovertaken
  · -- an unlocked vault is still to wake the call
    obtain ⟨u, hu⟩ := h.heard.heard r (Parking.waiting_of_sleeping _ hr) hopen
    exact absurd hu (hnone (P := fun p => Parking.notifying p = true) (by simp [Parking.notifying])
      (by simp [Parking.notifying]) u)
  · rcases hattended with hnobody | ⟨b, -, hb⟩ | ⟨u, -, hu⟩
    · exact absurd hserved (hnobody e trivial)
    · have hrunning := running_of_still (h.wired.seated b) (hstill b) (served_of_heeds hb) hquiet
      obtain ⟨hwire, hout, hwaits, -⟩ := hstill b
      have hsettled : settled (s.seat b) = (s.seat b).client := by
        simp only [settled, hwire, settle_nil]
      -- What is on the wires has been handled, so only an open prompt can be what answers.
      rcases hb with ⟨c, -, hprompting, -⟩ | ⟨c, -, ⟨w, hw, -⟩ | ⟨m, hm, -⟩⟩
      · rw [hsettled] at hprompting
        exact ⟨b, hrunning, hprompting⟩
      · rw [hsettled, hwaits hrunning] at hw
        cases hw
      · rw [hout] at hm
        cases hm
    · exact absurd hu (hnone (P := fun p => cancels p = true) (by simp [cancels])
        (by simp [cancels]) u)
  · -- Who has been overtaken would be woken by the cancel.
    obtain ⟨u, hu⟩ := h.bumped r hr hovertaken
    exact absurd hu (hnone (P := fun p => p = .wakeCancelled) (by simp) (by simp) u)

/-- In a run where somebody is left to answer for the parked calls, every parked call has a
prompt. -/
theorem parkedPrompted_of_attentive (L : Packages Key) (cfg : Config) (fs : FileSystem)
    (clock : ℕ) (es : List Event) (s : System Key)
    (hguard : Along (step L cfg) Attentive (start Key fs clock) es)
    (hrun : run (step L cfg) (start Key fs clock) es = some s) : ParkedPrompted s := by
  have hinv : Inv s := run_inv (fun _ _ _ h hG hstep => inv_step h hG hstep) (inv_start fs clock)
    hguard hrun
  exact parkedPrompted_of_inv hinv

/-! ### A signal that is dropped -/

lemma still_unstarted : Still unstarted :=
  ⟨rfl, rfl, fun _ => rfl, .inl rfl⟩

/-- An editor unlocks the vault. A request of its takes the session, and before that is
announced a read parks and sends its signal, which the editor drops. -/
def droppedSignal : List Event :=
  greeted 0 0 ++ asked 0 1 (.call "vault.unlock" (.obj [("password", .str "pw")])) 8 ++
    [.deliver 0, .deliver 0] ++ asked 0 2 (.call "vault.lock" (.obj [])) 2 ++
    asked 0 3 (.call "secret.get" (.obj [("name", .str "a")])) 7 ++ turns 2 2 ++
    [.deliver 0, .deliver 0, .deliver 0]

theorem not_parkedIsPrompted : ¬ ParkedIsPrompted := by
  intro h
  have hend : (run sampleStep sampleStart droppedSignal).map (fun s =>
      ((s.seat 0).client.isRunning && !(s.seat 0).client.prompting, (s.seat 0).link,
        (s.seat 0).wire.length + (s.seat 0).outgoing.length + (s.seat 0).client.waiters.length,
        [0, 1, 2].all fun u => (s.agent.pc u).isIdle, sleeping (s.agent.pc 3))) =
      some (true, .served 1, 0, true, true) := by
    decide +kernel
  obtain ⟨s, hrun, hs⟩ := Option.map_eq_some_iff.mp hend
  simp only [Prod.mk.injEq, Nat.add_eq_zero_iff, List.length_eq_zero_iff, Bool.and_eq_true,
    Bool.not_eq_true'] at hs
  obtain ⟨⟨hrunning, hprompt⟩, hlink, ⟨⟨hwire, hout⟩, hwaiters⟩, hidle, hsleep⟩ := hs
  have hothers : ∀ e, e ≠ 0 → s.seat e = unstarted := fun e he =>
    unstarted_of_editorsBelow (n := 1) hrun (by decide +kernel) (by omega) rfl
  have hstill : ∀ e, Still (s.seat e) := by
    intro e
    by_cases he : e = 0
    · subst he
      exact ⟨hwire, hout, fun _ => hwaiters, .inr ⟨1, hlink⟩⟩
    · rw [hothers e he]
      exact still_unstarted
  have hquiet : ∀ u, (s.agent.pc u).isIdle = true ∨ sleeping (s.agent.pc u) = true := by
    intro u
    by_cases hu : 4 ≤ u
    · left
      rw [idle_of_threadsBelow hrun (by decide +kernel) hu rfl]
      rfl
    · by_cases hu3 : u = 3
      · subst hu3
        exact .inr hsleep
      · exact .inl (List.all_eq_true.mp hidle u (by simp; omega))
  obtain ⟨e, he, hprompting⟩ := h Sample.Key Sample.packages Sample.config _ 0 droppedSignal s
    (by decide +kernel) hrun hstill hquiet ⟨3, hsleep⟩ ⟨0, hrunning⟩
  by_cases he0 : e = 0
  · subst he0
    rw [hprompt] at hprompting
    cases hprompting
  · rw [hothers e he0] at he
    cases he

/-! ### A signal that is heard -/

/-- With so many threads at most, the one signal is heard by the first editor, and nothing else
happens that a parked call could lose its prompt by. -/
def plain (n : ℕ) (s : System Key) : Event → Bool
  | .agent (.run t _ _) =>
    match s.agent.pc t, (s.seat 0).link with
    | .signal _, .served _ =>
      !(settled (s.seat 0)).unlocked && (List.range n).all fun u => !past (s.agent.pc u)
    | .signal _, _ | .call .unlockCancel, _ | .call .lock, _ | .tickTake, _ | .wake _, _ => false
    | _, _ => true
  | .accept _ | .hangup _ | .stop _ _ => (List.range n).all fun r => !parked (s.agent.pc r)
  | _ => true

lemma none_of_range {n : ℕ} {P : Pc Key → Bool} (hidle : ∀ u, n ≤ u → s.agent.pc u = .idle)
    (hP : P .idle = false) (h : ((List.range n).all fun u => !P (s.agent.pc u)) = true) (u : ℕ) :
    P (s.agent.pc u) = false := by
  by_cases hu : n ≤ u
  · rw [hidle u hu]
    exact hP
  · have hnot := List.all_eq_true.mp h u (List.mem_range.mpr (by omega))
    simpa using hnot

lemma attentive_of_plain {n : ℕ} {ev : Event} (hidle : ∀ u, n ≤ u → s.agent.pc u = .idle)
    (h : plain n s ev = true) : Attentive s ev := by
  have hnone (hp : ((List.range n).all fun r => !parked (s.agent.pc r)) = true) {r : ℕ} :
      ¬ parked (s.agent.pc r) = true := by
    simp [none_of_range hidle rfl hp r]
  cases ev with
  | agent a =>
    cases a with
    | run t env expired =>
      simp only [plain] at h
      split at h
      · rename_i op c hop hlink
        simp only [Bool.and_eq_true, Bool.not_eq_true'] at h
        simp only [Attentive, Heard, hop, true_and]
        refine .inr (.inr ⟨0, c, hlink, .inr h.1, fun u _ hpast => ?_⟩)
        rw [none_of_range (P := past) hidle rfl h.2 u] at hpast
        cases hpast
      iterate 5 cases h
      · rename_i hsignal hcancel hlock htake hwake _
        refine ⟨?_, ?_⟩
        · simp only [Heard]
          split
          · rename_i k r hk _
            exact absurd hk (hwake k)
          · trivial
        · simp only
    | _ => trivial
  | accept e => exact fun _ r hr => absurd hr (hnone h)
  | hangup e => exact fun r hr => absurd hr (hnone h)
  | stop e n => exact fun r hr => absurd hr (hnone h)
  | _ => trivial

/-- An editor that knows the vault to be locked reads a secret, and is asked for the password. -/
def heardSignal : List Event :=
  greeted 0 0 ++ asked 0 1 (.call "secret.get" (.obj [("name", .str "a")])) 7 ++
    [.deliver 0, .send 0, .read 0 2] ++ turns 2 6 ++ [.deliver 0]

theorem parkedPrompted_heardSignal : ∃ s, run sampleStep sampleStart heardSignal = some s ∧
    sleeping (s.agent.pc 1) = true ∧ ParkedPrompted s := by
  obtain ⟨s, hrun, hsleep⟩ : ∃ s, run sampleStep sampleStart heardSignal = some s ∧
      sleeping (s.agent.pc 1) = true :=
    Option.map_eq_some_iff.mp
      (by decide +kernel : (run sampleStep sampleStart heardSignal).map
        (fun s => sleeping (s.agent.pc 1)) = some true)
  have hplain : Along sampleStep (fun s ev => plain 3 s ev = true ∧ ev.thread.all (· < 3) = true)
      sampleStart heardSignal := by
    decide +kernel
  have hguard : Along sampleStep Attentive sampleStart heardSignal := by
    refine hplain.of_inv (fun s => ∀ u, 3 ≤ u → s.agent.pc u = .idle)
      (fun s ev s' hidle hG hstep u hu => ?_) (fun s ev hidle hG => attentive_of_plain hidle hG.1)
      fun u _ => rfl
    refine idle_took (took_of_step hstep) (fun heq => ?_) (hidle u hu)
    have hlt := hG.2
    simp only [heq, Option.all_some, decide_eq_true_eq] at hlt
    omega
  exact ⟨s, hrun, hsleep, parkedPrompted_of_attentive Sample.packages Sample.config _ 0
    heardSignal s hguard hrun⟩

end LvimKeyring.Prompting

import Mathlib.Data.List.Infix
import StaticSite.Watch

namespace StaticSite

@[simp]
def WatchEvent.change? : WatchEvent α → Option α
  | .arrive change => some change
  | _ => none

@[simp]
def WatchEvent.outcome? : WatchEvent α → Option BuildOutcome
  | .finish o => some o
  | _ => none

def WatchPhase.held : WatchPhase α → List α
  | .settling changes => changes
  | _ => []

def WatchPhase.running : WatchPhase α → Nat
  | .building _ _ => 1
  | _ => 0

namespace Watch

def conclude (w : Watch α) (last : Bool) (o : BuildOutcome) : Watch α :=
  { w with
    phase := if last ∨ o = .broken then .ended else .waiting
    builds := w.builds + if o = .broken then 0 else 1
    failures := w.failures + if o = .succeeded then 0 else 1 }

/-- A step with what happens outside, or, without an event, a receipt. What is in the queue is
received before the end of the queue is seen, and before a time expires. -/
inductive Step : Watch α → Option (WatchEvent α) → Watch α → Prop
  | arrive : w.closed = false → Step w (some (.arrive c)) { w with queue := w.queue ++ [c] }
  | close : w.closed = false → Step w (some .close) { w with closed := true }
  | first : w.phase = .waiting → w.queue = c :: q →
      Step w none { w with phase := .settling [c], queue := q }
  | more : w.phase = .settling cs → w.queue = c :: q →
      Step w none { w with phase := .settling (cs ++ [c]), queue := q }
  | stop : w.phase = .waiting → w.queue = [] → w.closed = true →
      Step w none { w with phase := .ended }
  | hurry : w.phase = .settling cs → w.queue = [] → w.closed = true → Step w none (w.start cs true)
  | expire : w.phase = .settling cs → w.queue = [] → Step w (some .expire) (w.start cs false)
  | finish : w.phase = .building cs last → Step w (some (.finish o)) (w.conclude last o)

/-- Steps one after the other, with all that happens outside in its order. -/
inductive Interleaving (w : Watch α) : List (WatchEvent α) → Watch α → Prop
  | refl : Interleaving w [] w
  | step : Interleaving w es w' → Step w' e w'' → Interleaving w (es ++ e.toList) w''

variable {w w' w'' : Watch α} {es fs : List (WatchEvent α)} {e : Option (WatchEvent α)}

theorem Step.interleaving (h : Step w e w') : Interleaving w e.toList w' := by
  simpa using Interleaving.refl.step h

theorem Interleaving.trans (h : Interleaving w es w') (h' : Interleaving w' fs w'') :
    Interleaving w (es ++ fs) w'' := by
  induction h' with
  | refl => simpa using h
  | step _ hstep ih => simpa using ih.step hstep

theorem Interleaving.receive (h : Interleaving w es w') (h' : Step w' none w'') :
    Interleaving w es w'' := by
  simpa using h.step h'

def sent (es : List (WatchEvent α)) : List α := es.filterMap WatchEvent.change?

def outcomes (es : List (WatchEvent α)) : List BuildOutcome := es.filterMap WatchEvent.outcome?

def pending (w : Watch α) : List α := w.phase.held ++ w.queue

@[simp] theorem sent_cons (e : WatchEvent α) (es : List (WatchEvent α)) :
    sent (e :: es) = e.change?.toList ++ sent es := by
  cases e <;> rfl

@[simp] theorem outcomes_cons (e : WatchEvent α) (es : List (WatchEvent α)) :
    outcomes (e :: es) = e.outcome?.toList ++ outcomes es := by
  cases e <;> rfl

@[simp] theorem sent_nil : sent ([] : List (WatchEvent α)) = [] := rfl

@[simp] theorem outcomes_nil : outcomes ([] : List (WatchEvent α)) = [] := rfl

@[simp] theorem sent_append (es fs : List (WatchEvent α)) : sent (es ++ fs) = sent es ++ sent fs :=
  List.filterMap_append

@[simp] theorem outcomes_append (es fs : List (WatchEvent α)) :
    outcomes (es ++ fs) = outcomes es ++ outcomes fs := List.filterMap_append

structure Accounts (es : List (WatchEvent α)) (w : Watch α) : Prop where
  sent_eq : sent es = w.taken.flatten ++ w.pending
  taken_length : w.taken.length = (outcomes es).length + w.phase.running
  builds_eq : w.builds = (outcomes es).countP (· ≠ .broken)
  failures_eq : w.failures = (outcomes es).countP (· ≠ .succeeded)
  closed_iff : w.closed = true ↔ WatchEvent.close ∈ es
  broken : BuildOutcome.broken ∈ outcomes es →
    w.phase = .ended ∧ ∃ before, outcomes es = before ++ [.broken] ∧ .broken ∉ before
  ended : w.phase = .ended →
    BuildOutcome.broken ∈ outcomes es ∨ w.closed = true ∧ w.pending = []
  last : ∀ cs, w.phase = .building cs true → w.closed = true ∧ w.queue = []

theorem accounts_start : Accounts [] ({} : Watch α) where
  sent_eq := rfl
  taken_length := rfl
  builds_eq := rfl
  failures_eq := rfl
  closed_iff := by simp
  broken := nofun
  ended := nofun
  last := nofun

@[simp] theorem conclude_queue (w : Watch α) (last : Bool) (o : BuildOutcome) :
    (w.conclude last o).queue = w.queue := rfl

@[simp] theorem conclude_taken (w : Watch α) (last : Bool) (o : BuildOutcome) :
    (w.conclude last o).taken = w.taken := rfl

theorem held_conclude (w : Watch α) (last : Bool) (o : BuildOutcome) :
    (w.conclude last o).phase.held = [] := by
  simp only [conclude]
  split <;> rfl

theorem ended_conclude_iff {w : Watch α} {last : Bool} {o : BuildOutcome} :
    (w.conclude last o).phase = .ended ↔ last = true ∨ o = .broken := by
  simp only [conclude]
  split <;> simp_all

theorem running_conclude (w : Watch α) (last : Bool) (o : BuildOutcome) :
    (w.conclude last o).phase.running = 0 := by
  simp only [conclude]
  split <;> rfl

theorem pending_conclude (hp : w.phase = .building cs last) (o : BuildOutcome) :
    (w.conclude last o).pending = w.pending := by
  rw [pending, held_conclude, pending, hp]
  rfl

theorem Step.covered (h : Step w e w') :
    w'.taken.flatten ++ w'.pending = w.taken.flatten ++ w.pending ++ sent e.toList := by
  cases h with
  | finish hp => simp [pending_conclude hp]
  | _ => simp_all [pending, start, WatchPhase.held]

theorem Step.length_taken (h : Step w e w') :
    w'.taken.length + w.phase.running =
      w.taken.length + (outcomes e.toList).length + w'.phase.running := by
  cases h with
  | finish hp => rw [running_conclude, hp, conclude_taken]; rfl
  | _ => simp_all [start, WatchPhase.running]

theorem Step.builds_eq (h : Step w e w') :
    w'.builds = w.builds + (outcomes e.toList).countP (· ≠ .broken) := by
  cases h <;> simp [start, conclude]

theorem Step.failures_eq (h : Step w e w') :
    w'.failures = w.failures + (outcomes e.toList).countP (· ≠ .succeeded) := by
  cases h <;> simp [start, conclude]

theorem Step.closed_iff (h : Step w e w') :
    w'.closed = true ↔ w.closed = true ∨ .close ∈ e.toList := by
  cases h <;> simp_all [start, conclude]

theorem Step.taken_eq (h : Step w e w') :
    w'.taken = w.taken ∧ w.pending <+: w'.pending ∨
      w'.taken = w.taken ++ [w.phase.held] ∧ w.queue = [] ∧ w'.pending = [] := by
  cases h with
  | hurry hp hq _ | expire hp hq => right; simp [start, pending, hp, hq, WatchPhase.held]
  | finish hp => left; simp [pending_conclude hp]
  | _ => left; simp_all [pending, WatchPhase.held]

theorem Interleaving.taken_eq (h : Interleaving w es w') :
    w'.taken = w.taken ∧ w.pending <+: w'.pending ∨
      ∃ b rest, w'.taken = w.taken ++ b :: rest ∧ w.pending <+: b := by
  induction h with
  | refl => exact .inl ⟨rfl, List.prefix_rfl⟩
  | step _ hstep ih =>
    obtain ⟨hsame, hpending⟩ | ⟨b, rest, hmore, hpending⟩ := ih
    · obtain ⟨htaken, hnow⟩ | ⟨htaken, hqueue, -⟩ := hstep.taken_eq
      · exact .inl ⟨htaken.trans hsame, hpending.trans hnow⟩
      · rw [pending, pending, hqueue, List.append_nil] at hpending
        exact .inr ⟨_, [], by rw [htaken, hsame], hpending⟩
    · right
      obtain ⟨htaken, -⟩ | ⟨htaken, -⟩ := hstep.taken_eq
      · exact ⟨b, rest, by rw [htaken, hmore], hpending⟩
      · exact ⟨b, rest ++ [_], by rw [htaken, hmore, List.append_assoc, List.cons_append], hpending⟩

theorem Accounts.step (h : Accounts es w) (hstep : Step w e w') : Accounts (es ++ e.toList) w' where
  sent_eq := by rw [hstep.covered, ← h.sent_eq, sent_append]
  taken_length := by
    have := hstep.length_taken
    have := h.taken_length
    simp only [outcomes_append, List.length_append]
    omega
  builds_eq := by rw [hstep.builds_eq, h.builds_eq, outcomes_append, List.countP_append]
  failures_eq := by rw [hstep.failures_eq, h.failures_eq, outcomes_append, List.countP_append]
  closed_iff := by rw [hstep.closed_iff, h.closed_iff, List.mem_append]
  broken := by
    have hne : w.phase ≠ .ended → .broken ∉ outcomes es := fun hp hmem => hp (h.broken hmem).1
    cases hstep with
    | @finish _ o last cs hp =>
      have hnot : .broken ∉ outcomes es := hne (by simp [hp])
      intro hmem
      obtain rfl : o = .broken := by simpa [hnot, eq_comm] using hmem
      exact ⟨ended_conclude_iff.mpr (.inr rfl), outcomes es, by simp, hnot⟩
    | arrive | close => simpa using h.broken
    | _ => simp_all
  ended := by
    have hended := h.ended
    cases hstep with
    | @finish _ o last cs hp =>
      intro hend
      obtain rfl | rfl := ended_conclude_iff.mp hend
      · -- The last build starts when all is received and no more can arrive.
        right
        rw [pending_conclude hp, pending, hp]
        exact h.last cs hp
      · left
        simp
    | _ => simp_all [pending, start, WatchPhase.held]
  last := by
    have hlast := h.last
    cases hstep with
    | @finish _ o last =>
      intro cs hcs
      have hrun := running_conclude w last o
      rw [hcs] at hrun
      cases hrun
    | _ => simp_all [start]

theorem Interleaving.accounts (h : Interleaving {} es w) : Accounts es w := by
  induction h with
  | refl => exact accounts_start
  | step _ hstep ih => exact ih.step hstep

theorem interleaving_settling (q : List α) : ∀ (w : Watch α) (cs : List α), w.phase = .settling cs →
    w.queue = q → Interleaving w [] { w with phase := .settling (cs ++ q), queue := [] } := by
  induction q with
  | nil =>
    intro w cs hp hq
    cases w
    simp_all
    exact .refl
  | cons c q ih =>
    intro w cs hp hq
    have h := ih { w with phase := .settling (cs ++ [c]), queue := q } _ rfl rfl
    simpa using (Step.more hp hq).interleaving.trans h

theorem interleaving_settle (hp : w.phase = .settling cs) :
    Interleaving w [] ({ w with queue := [] }.settle (cs ++ w.queue)) := by
  have h := interleaving_settling w.queue w cs hp rfl
  rw [settle]
  split
  · exact h.receive (.hurry rfl rfl ‹_›)
  · exact h

theorem interleaving_advance (w : Watch α) : Interleaving w [] w.advance := by
  unfold advance
  split
  · split
    · exact (Step.stop ‹_› ‹_› ‹_›).interleaving
    · exact .refl
  · rename_i hp hne
    obtain ⟨c, q, hq⟩ := List.exists_cons_of_ne_nil hne
    rw [hq]
    have h := interleaving_settle (w := { w with phase := .settling [c], queue := q }) rfl
    exact (Step.first hp hq).interleaving.trans h
  · exact interleaving_settle ‹_›
  · exact .refl

@[simp] theorem settle_queue (w : Watch α) (cs : List α) : (w.settle cs).queue = w.queue := by
  unfold settle
  split <;> rfl

@[simp] theorem advance_advance (w : Watch α) : w.advance.advance = w.advance := by
  rcases w with ⟨_ | _ | _ | _, _ | _, _ | _, _, _, _⟩ <;> simp [advance, settle, start]

theorem advance_queue (hp : w.phase = .waiting ∨ ∃ cs, w.phase = .settling cs) :
    w.advance.queue = [] := by
  unfold advance
  split
  · split <;> simpa
  · simp
  · simp
  · simp_all

theorem finish_eq (hp : w.phase = .building cs last) (o : BuildOutcome) :
    w.finish o = (w.conclude last o).advance := by
  cases o <;> cases last <;> simp [finish, hp, conclude, advance]

theorem advance_step (hw : w.advance = w) (e : WatchEvent α) : (w.step e).advance = w.step e := by
  cases e with
  | arrive c => simp only [step, Watch.arrive]; split <;> simp [hw]
  | close => simp [step, Watch.close]
  | expire =>
    simp only [step, Watch.expire]
    split
    · rfl
    · exact hw
  | finish o =>
    rcases hp : w.phase with _ | _ | ⟨cs, last⟩ | _
    case building => simp [step, finish_eq hp]
    all_goals simpa [step, finish, hp] using hw

theorem interleaving_step (hw : w.advance = w) (e : WatchEvent α) :
    ∃ es, es.Sublist [e] ∧ Interleaving w es (w.step e) := by
  cases e with
  | arrive c =>
    simp only [step, Watch.arrive]
    split
    · exact ⟨[], by simp, .refl⟩
    · have hopen : w.closed = false := eq_false_of_ne_true ‹_›
      exact ⟨_, .refl _, (Step.arrive hopen).interleaving.trans (interleaving_advance _)⟩
  | close =>
    simp only [step, Watch.close]
    rcases hc : w.closed
    · exact ⟨_, .refl _, (Step.close hc).interleaving.trans (interleaving_advance _)⟩
    · refine ⟨[], by simp, ?_⟩
      rw [← hc, hw]
      exact .refl
  | expire =>
    simp only [step, Watch.expire]
    split
    · have hq := advance_queue (.inr ⟨_, ‹_›⟩)
      exact ⟨_, .refl _, (Step.expire ‹_› (hw ▸ hq)).interleaving⟩
    · exact ⟨[], by simp, .refl⟩
  | finish o =>
    rcases hp : w.phase with _ | _ | ⟨cs, last⟩ | _
    case building =>
      refine ⟨_, .refl _, ?_⟩
      rw [step, finish_eq hp]
      exact (Step.finish hp).interleaving.trans (interleaving_advance _)
    all_goals exact ⟨[], by simp, by simpa [step, finish, hp] using .refl⟩

theorem interleaving_run (es : List (WatchEvent α)) : ∀ w : Watch α, w.advance = w →
    ∃ es', es'.Sublist es ∧ Interleaving w es' (w.run es) := by
  induction es with
  | nil => exact fun w _ => ⟨[], .slnil, .refl⟩
  | cons e es ih =>
    intro w hw
    obtain ⟨fs, hfs, hstep⟩ := interleaving_step hw e
    obtain ⟨gs, hgs, hrun⟩ := ih (w.step e) (advance_step hw e)
    exact ⟨fs ++ gs, hfs.append hgs, hstep.trans hrun⟩

theorem advance_run (es : List (WatchEvent α)) : ∀ w : Watch α, w.advance = w →
    (w.run es).advance = w.run es := by
  induction es with
  | nil => exact fun w hw => hw
  | cons e es ih => exact fun w hw => ih _ (advance_step hw e)

/-- All that can be received, received; a build that then runs is the last one if nothing more can
arrive. -/
def catchUp (w : Watch α) : Watch α :=
  match w.phase with
  | .building cs last => { w with phase := .building cs (last || w.closed && w.queue.isEmpty) }
  | _ => w.advance

theorem catchUp_building (hp : w.phase = .building cs last) :
    w.catchUp = { w with phase := .building cs (last || w.closed && w.queue.isEmpty) } := by
  simp only [catchUp, hp]

theorem catchUp_of_running (hp : w.phase.running = 0) : w.catchUp = w.advance := by
  unfold catchUp
  split
  · simp_all [WatchPhase.running]
  · rfl

theorem catchUp_step (hw : w.advance = w) (e : WatchEvent α) :
    (w.catchUp.step e).catchUp = (w.step e).catchUp := by
  rcases hp : w.phase with _ | _ | ⟨cs, last⟩ | _
  case building =>
    rw [catchUp_building hp]
    obtain ⟨phase, queue, closed, _, _, _⟩ := w
    subst hp
    cases e with
    | arrive c => cases closed <;> simp [step, Watch.arrive, advance, catchUp]
    | close => cases queue <;> cases last <;> simp [step, Watch.close, advance, catchUp]
    | expire => simp [step, Watch.expire, catchUp]
    | finish o =>
      cases o <;> cases last <;> cases closed <;> cases queue <;>
        simp [step, Watch.finish, advance, settle, start, catchUp]
  all_goals
    have hrun : w.phase.running = 0 := by rw [hp]; rfl
    rw [catchUp_of_running hrun, hw]

theorem Step.catchUp_receipt (h : Step w none w') : w'.catchUp = w.catchUp := by
  obtain ⟨phase, queue, closed, _, _, _⟩ := w
  cases h with
  | first hp hq | more hp hq =>
    cases hp
    cases hq
    cases closed <;> simp [advance, settle, start, catchUp]
  | stop hp hq hc | hurry hp hq hc =>
    cases hp
    cases hq
    cases hc
    simp [advance, settle, start, catchUp]

theorem Step.catchUp_event {e : WatchEvent α} (h : Step w (some e) w')
    (hlast : ∀ cs, w.phase = .building cs true → w.closed = true ∧ w.queue = []) :
    w'.catchUp = (w.catchUp.step e).catchUp := by
  obtain ⟨phase, queue, closed, _, _, _⟩ := w
  cases h with
  | arrive hc =>
    cases hc
    rcases phase with _ | _ | ⟨_, _ | _⟩ | _ <;> cases queue <;>
      simp [step, Watch.arrive, advance, settle, catchUp]
  | close hc =>
    cases hc
    rcases phase with _ | _ | ⟨_, _ | _⟩ | _ <;> cases queue <;>
      simp [step, Watch.close, advance, settle, start, catchUp]
  | expire hp hq =>
    cases hp
    cases hq
    cases closed <;> simp [step, Watch.expire, advance, settle, start, catchUp]
  | @finish _ o last cs hp =>
    cases hp
    cases last
    -- A build that started before the channel was closed ends a watch only in the next receipt.
    · cases o <;> cases closed <;> cases queue <;>
        simp [step, Watch.finish, conclude, advance, settle, start, catchUp]
    · obtain ⟨hc, hq⟩ := hlast cs rfl
      cases hc
      cases hq
      cases o <;> simp [step, Watch.finish, conclude, advance, catchUp]

theorem Interleaving.catchUp_eq (h : Interleaving {} es w) :
    w.catchUp = (({} : Watch α).run es).catchUp := by
  induction h with
  | refl => rfl
  | @step es w e w' hbefore hstep ih =>
    have hlast := hbefore.accounts.last
    have hrun := advance_run es {} rfl
    rw [run_append]
    cases e with
    | none => exact hstep.catchUp_receipt.trans ih
    | some e =>
      rw [hstep.catchUp_event hlast, ih, catchUp_step hrun]
      rfl

theorem exists_taken_up (hp : w.phase = .waiting ∨ ∃ cs, w.phase = .settling cs) :
    ∃ fs w', Interleaving w fs w' ∧ sent fs = [] ∧ w'.pending = [] := by
  have hq : w.advance.queue = [] := advance_queue hp
  have hreceive := interleaving_advance w
  rcases hphase : w.advance.phase with _ | cs | _ | _
  case settling =>
    have hexpire := (Step.expire hphase hq).interleaving
    exact ⟨_, _, hreceive.trans hexpire, rfl, hq⟩
  all_goals exact ⟨[], _, hreceive, rfl, by rw [pending, hphase, hq]; rfl⟩

theorem Interleaving.exists_covered (h : Interleaving {} es w) (hp : w.phase ≠ .ended) :
    ∃ fs w', Interleaving w fs w' ∧ sent fs = [] ∧ w'.taken.flatten = sent es := by
  have hpending : ∃ fs w', Interleaving w fs w' ∧ sent fs = [] ∧ w'.pending = [] := by
    rcases hphase : w.phase with _ | cs | ⟨cs, last⟩ | _
    · exact exists_taken_up (.inl hphase)
    · exact exists_taken_up (.inr ⟨cs, hphase⟩)
    · have hfinish := (Step.finish hphase (o := .succeeded)).interleaving
      cases last with
      | false =>
        obtain ⟨fs, w', hrest, hsent, hnone⟩ :=
          exists_taken_up (w := w.conclude false .succeeded) (.inl rfl)
        exact ⟨_, w', hfinish.trans hrest, hsent, hnone⟩
      | true =>
        refine ⟨_, _, hfinish, rfl, ?_⟩
        rw [pending_conclude hphase, pending, hphase, (h.accounts.last cs hphase).2]
        rfl
    · exact absurd hphase hp
  obtain ⟨fs, w', hmore, hsent, hnone⟩ := hpending
  have haccounts := (h.trans hmore).accounts.sent_eq
  refine ⟨fs, w', hmore, hsent, ?_⟩
  simpa [hsent, hnone] using haccounts.symm

theorem Interleaving.eq_run (h : Interleaving {} es w) (hp : w.phase = .ended) :
    w = ({} : Watch α).run es := by
  have hrun := advance_run es {} rfl
  have heq := h.catchUp_eq
  have hw : w.catchUp = w := by simp [catchUp, advance, hp]
  rw [hw] at heq
  rcases hphase : (({} : Watch α).run es).phase with _ | _ | ⟨cs, last⟩ | _
  case building =>
    rw [catchUp_building hphase] at heq
    rw [heq] at hp
    cases hp
  all_goals
    have hnone : (({} : Watch α).run es).phase.running = 0 := by rw [hphase]; rfl
    rwa [catchUp_of_running hnone, hrun] at heq

/-- No change is lost or taken up twice: builds take up, one at a time, what was sent so far. -/
theorem Interleaving.changes_covered (h : Interleaving {} es w) :
    Accounts es w ∧
    (∀ e w', Step w e w' →
      w'.taken = w.taken ∧ w.pending <+: w'.pending ∨
        w'.taken = w.taken ++ [w.phase.held] ∧ w.queue = [] ∧ w'.pending = []) ∧
    (∀ fs w', Interleaving w fs w' →
      w'.taken = w.taken ∧ w.pending <+: w'.pending ∨
        ∃ b rest, w'.taken = w.taken ++ b :: rest ∧ w.pending <+: b) ∧
    (w.phase ≠ .ended →
      ∃ fs w', Interleaving w fs w' ∧ sent fs = [] ∧ w'.taken.flatten = sent es) ∧
    w.catchUp = (({} : Watch α).run es).catchUp ∧
    (w.phase = .ended → w = ({} : Watch α).run es) :=
  ⟨h.accounts, fun _ _ => Step.taken_eq, fun _ _ => Interleaving.taken_eq, h.exists_covered,
    h.catchUp_eq, h.eq_run⟩

theorem Interleaving.changes_covered_failed :
    let es := [.arrive 1, .expire, .arrive 2, .finish .failed, .arrive 3, .close,
      .finish .succeeded]
    let w : Watch Nat :=
      { phase := .ended, closed := true, builds := 2, failures := 1, taken := [[1], [2, 3]] }
    Interleaving {} es w ∧ Accounts es w ∧ w = ({} : Watch Nat).run es := by
  intro es w
  have hfirst : Interleaving ({} : Watch Nat) [.arrive 1, .expire]
      { phase := .building [1] false, taken := [[1]] } :=
    ((Interleaving.refl.step (.arrive rfl)).step (.first rfl rfl)).step (.expire rfl rfl)
  have hnext : Interleaving ({} : Watch Nat)
      [.arrive 1, .expire, .arrive 2, .finish .failed, .arrive 3]
      { phase := .settling [2, 3], builds := 1, failures := 1, taken := [[1]] } :=
    ((((hfirst.step (.arrive rfl)).step (.finish rfl)).step (.arrive rfl)).step
      (.first rfl rfl)).step (.more rfl rfl)
  have hlast : Interleaving {} es w :=
    ((hnext.step (.close rfl)).step (.hurry rfl rfl rfl)).step (.finish rfl)
  have haccounts := hlast.changes_covered
  exact ⟨hlast, haccounts.1, haccounts.2.2.2.2.2 rfl⟩

end Watch

end StaticSite

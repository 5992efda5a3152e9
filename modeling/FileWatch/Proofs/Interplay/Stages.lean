import FileWatch.Proofs.Interplay.Effects

/-!
# From one stage to the next

A call knocks, looks at the table, and goes on with what it has found.  Until it has looked it is early:
it has changed nothing, and needs nothing but that nobody holds the table or the phase.  `Call.rest`
counts the steps that it has still to make.

The reader goes from place to place with a record, and back to where it polls; or it leaves, and ends
(`Reading.Turn`).
-/

namespace FileWatch

namespace Interplay

variable {s t : Interplay} {m : Move} {i : Nat} {c : Call}

/-! ## Calls -/

/-- How many steps are still to be made at most by a call that makes so many once it was let in. -/
def Progress.rest {σ ρ : Type} (most : Nat) (inside : σ → Nat) : Progress σ ρ → Nat
  | .arriving => most + 2
  | .heard => most + 1
  | .inside stage => inside stage
  | .returned _ => 0

def Adding.rest : Adding → Nat
  | .admitted => 3
  | .asking _ _ => 2
  | .told _ _ => 1

def Removing.rest : Removing → Nat
  | .admitted => 3
  | .found _ => 2
  | .waiting _ => 1

def Closing.rest : Closing → Nat
  | .arriving => 7
  | .entered => 6
  | .announced => 5
  | .woken _ => 4
  | .joined _ => 3
  | .released _ => 2
  | .cleared _ => 1
  | .returned _ => 0

/-- How many steps a call has still to make at most, if it does not have to sleep. -/
def Call.rest : Call → Nat
  | .add _ _ progress => progress.rest 3 Adding.rest
  | .remove _ progress => progress.rest 3 Removing.rest
  | .list progress => progress.rest 1 fun _ => 1
  | .close closing => closing.rest

/-- Whether a call has yet to look at the table. -/
def Call.isEarly : Call → Bool
  | .add _ _ .arriving => true
  | .add _ _ .heard => true
  | .add _ _ (.inside .admitted) => true
  | .remove _ .arriving => true
  | .remove _ .heard => true
  | .remove _ (.inside .admitted) => true
  | .list .arriving => true
  | .list .heard => true
  | .list (.inside ()) => true
  | _ => false

/-- A call that knocks while nobody holds the phase gets an answer, and comes nearer to its end. -/
theorem Progress.exists_knock {σ ρ : Type} (progress : Progress σ ρ) (w : Watcher) (entry : σ)
    (refusal : ρ) {most : Nat} (inside : σ → Nat) (hentry : inside entry ≤ most) :
    (∃ stage, progress = .inside stage) ∨ (∃ result, progress = .returned result) ∨
      ∃ next, progress.knock w true entry refusal = some next ∧
        next.rest most inside < progress.rest most inside := by
  cases progress with
  | inside stage => exact .inl ⟨stage, rfl⟩
  | returned result => exact .inr (.inl ⟨result, rfl⟩)
  | arriving =>
    refine .inr (.inr ⟨_, rfl, ?_⟩)
    split
    · exact Nat.lt_succ_self (most + 1)
    · exact Nat.succ_pos (most + 1)
  | heard =>
    refine .inr (.inr ⟨_, rfl, ?_⟩)
    split
    · exact Nat.lt_succ_of_le hentry
    · exact Nat.succ_pos most

/-- **An early call can go on** while nobody holds the table or the phase, and changes nothing else. -/
theorem callStep_of_isEarly (free : s.tableFree = true) (phaseFree : s.phaseFree = true)
    (early : c.isEarly = true) :
    ∃ c', s.CallStep i (.call i) c c' s ∧ c'.request = c.request ∧ c'.rest < c.rest := by
  cases c with
  | add p o progress =>
    rcases progress.exists_knock s.watcher .admitted (.error .closed) Adding.rest
        (Nat.le_refl 3) with ⟨stage, rfl⟩ | ⟨result, rfl⟩ | ⟨next, knock, hlt⟩
    · cases stage with
      | admitted => exact ⟨_, .addLooks free rfl, rfl, Nat.lt_succ_self 2⟩
      | asking | told => cases early
    · cases early
    · exact ⟨.add p o next, .addKnocks (phaseFree.symm ▸ knock), rfl, hlt⟩
  | remove p progress =>
    rcases progress.exists_knock s.watcher .admitted (.error .closed) Removing.rest
        (Nat.le_refl 3) with ⟨stage, rfl⟩ | ⟨result, rfl⟩ | ⟨next, knock, hlt⟩
    · cases stage with
      | admitted =>
        cases hfound : s.table.handleOf? p.normalize with
        | none => exact ⟨_, .removeMisses free hfound, rfl, Nat.succ_pos 2⟩
        | some h => exact ⟨_, .removeFinds free hfound, rfl, Nat.lt_succ_self 2⟩
      | found | waiting => cases early
    · cases early
    · exact ⟨.remove p next, .removeKnocks (phaseFree.symm ▸ knock), rfl, hlt⟩
  | list progress =>
    rcases progress.exists_knock s.watcher () [] (fun _ => 1)
        (Nat.le_refl 1) with ⟨stage, rfl⟩ | ⟨result, rfl⟩ | ⟨next, knock, hlt⟩
    · exact ⟨_, .listReads free, rfl, Nat.one_pos⟩
    · cases early
    · exact ⟨.list next, .listKnocks (phaseFree.symm ▸ knock), rfl, hlt⟩
  | close closing => cases early

/-! ## The reader -/

/-- From one place of the reader to the next, and by which move. -/
inductive Reading.Turn : Move → Reading → Reading → Prop
  | stays {m : Move} (place : Reading) (others : m ≠ .reader) : Turn m place place
  | read : Turn .reader .polling .polling
  | take (r : Record) : Turn .reader .polling (.taken r)
  | garbled (f : Failure) : Turn .reader .polling (.reporting f none)
  | lost (r : Record) (f : Failure) : Turn .reader (.taken r) (.reporting f none)
  | last {r : Record} (last : r.mask.has Mask.ignored = true) : Turn .reader (.taken r) .polling
  | fails {r : Record} (more : r.mask.has Mask.ignored = false) (f : Failure) :
    Turn .reader (.taken r) (.reporting f (some r))
  | settle {r : Record} (more : r.mask.has Mask.ignored = false) :
    Turn .reader (.taken r) (.settled r)
  | report (f : Failure) : Turn .reader (.reporting f none) .polling
  | resume (f : Failure) (r : Record) : Turn .reader (.reporting f (some r)) (.settled r)
  | nest (r : Record) (above : Path) : Turn .reader (.settled r) (.nested r above)
  | pass (r : Record) : Turn .reader (.settled r) (.single r)
  | covered (r : Record) (above : Path) : Turn .reader (.nested r above) .polling
  | uncovered (r : Record) (above : Path) : Turn .reader (.nested r above) (.single r)
  | silent (r : Record) : Turn .reader (.single r) .polling
  | translate (r : Record) (e : Event) : Turn .reader (.single r) (.translated r e)
  | stale (r : Record) (e : Event) : Turn .reader (.translated r e) .polling
  | keep (r : Record) (e : Event) : Turn .reader (.translated r e) (.handing r e)
  | hand (r : Record) (e : Event) : Turn .reader (.handing r e) .polling
  | stop : Turn .reader .leaving .stopping
  | release : Turn .reader .stopping .released
  | clear : Turn .reader .released .cleared
  | go : Turn .reader .cleared .gone
  | fault (f : Failure) : Turn (.fault f) .polling (.reporting f none)
  | leave : Turn .leave .polling .leaving
  | giveUpReport (f : Failure) (rest : Option Record) : Turn .giveUp (.reporting f rest) .leaving
  | giveUpEvent (r : Record) (e : Event) : Turn .giveUp (.handing r e) .leaving

theorem turn_of_readerStep {hand : Reading} (here : s.reading = hand) (step : s.ReaderStep hand t) :
    Reading.Turn .reader hand t.reading := by
  cases step with
  | take r => exact .take r
  | garbled m => exact .garbled (.malformed m)
  | read =>
    rw [here]
    exact .read
  | lost r => exact .lost r _
  | last r _ last => exact .last last
  | drop r _ more => exact .settle more
  | fails r _ more => exact .fails more _
  | settle r _ more => exact .settle more
  | report f => exact .report f
  | resume f r => exact .resume f r
  | nest r above => exact .nest r above
  | topmost r | pass r => exact .pass r
  | covered r above => exact .covered r above
  | uncovered r above => exact .uncovered r above
  | silent r => exact .silent r
  | translate r e => exact .translate r e
  | stale r e => exact .stale r e
  | keep r e => exact .keep r e
  | hand r e => exact .hand r e
  | stop => exact .stop
  | release => exact .release
  | clear => exact .clear
  | go => exact .go

/-- **Where the reader is after a move.** -/
theorem turn_of_fire (hfire : s.fire m = some t) : Reading.Turn m s.reading t.reading := by
  cases step_of_fire hfire with
  | call stage step =>
    rw [show (put _ _ _).reading = s.reading from step.reading]
    exact .stays _ step.ne_reader
  | reader step => exact turn_of_readerStep rfl step
  | giveUpReport f rest closing hand =>
    rw [hand]
    exact .giveUpReport f rest
  | giveUpEvent r e closing hand =>
    rw [hand]
    exact .giveUpEvent r e
  | fault f hand =>
    rw [hand]
    exact .fault f
  | leave hand =>
    rw [hand]
    exact .leave
  | _ => exact .stays s.reading nofun

end Interplay

end FileWatch

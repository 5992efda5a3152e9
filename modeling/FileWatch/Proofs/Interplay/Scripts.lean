import FileWatch.Proofs.Interplay.Returns

/-!
# Every lone caller follows a script

A script says beforehand what a caller is going to ask for, and which registrations the kernel will
have no watch for.  That is no restriction.  Where each move is steady for some script, one script will
do for all of them (`exists_script`): it can be written down as the calls are made.

Only what the kernel says is not known when a call is begun.  So while the last call has yet to ask the
kernel, the moves so far follow the script whatever it says about that (`Scripted.undecided`).
-/

namespace FileWatch

namespace Interplay

variable {s t : Interplay} {m : Move} {script longer : List Errand} {i : Nat}
  {find : Bool → Path → Except Errno Inode}

/-- Moves that are steady for some script. -/
def Orderly (s : Interplay) (m : Move) : Prop := ∃ script, Steady script s m

theorem Steady.extend (hlonger : ∀ {i : Nat} {q : Errand}, script[i]? = some q → longer[i]? = some q)
    (steady : Steady script s m) : Steady longer s m := by
  cases steady with
  | begin idle next => exact .begin idle (hlonger next)
  | call decided room => exact .call (fun hstage hno => hlonger (decided hstage hno)) room
  | refuse decided => exact .refuse (hlonger decided)
  | timeout => exact .timeout _
  | reader => exact .reader
  | fault f => exact .fault f
  | queue stays => exact .queue stays
  | disk same => exact .disk same
  | takeEvents => exact .takeEvents
  | takeErrors => exact .takeErrors
  | abandonEvents => exact .abandonEvents
  | abandonErrors => exact .abandonErrors

/-- What a steady move asks of the script: the errand that is begun, or nothing, or what the kernel says
to a registration. -/
theorem Steady.reads_script (steady : Steady script s m) (hfire : s.fire m = some t) :
    (∃ q : Errand, m = .begin q.call ∧ s.allReturned = true) ∨ (∀ longer, Steady longer s m) ∨
      ∃ i p o wanted known e, m.caller? = some i ∧
        s.calls[i]? = some (Call.add p o (.inside (.asking wanted known))) ∧
        ∀ longer : List Errand, longer[i]? = some (.add p o e) → Steady longer s m := by
  cases steady with
  | @begin q idle next => exact .inl ⟨q, rfl, idle⟩
  | @call i decided room =>
    by_cases hasking : ∃ p o wanted known,
        s.calls[i]? = some (Call.add p o (.inside (.asking wanted known)))
    · obtain ⟨p, o, wanted, known, hstage⟩ := hasking
      refine .inr (.inr ⟨i, p, o, wanted, known, s.watcher.kernel.shortage? p.normalize
        (if known then wanted ||| Mask.maskAdd else wanted), rfl, hstage, fun longer hnext => ?_⟩)
      refine .call (fun hother _ => ?_) room
      rw [hstage, Option.some.injEq] at hother
      cases hother
      exact hnext
    · exact .inr (.inl fun longer => .call (fun hstage => absurd ⟨_, _, _, _, hstage⟩ hasking) room)
  | @refuse i e p o decided =>
    obtain ⟨c, c', u, hstage, step, -⟩ := exists_callStep rfl hfire
    cases step with
    | addRefused =>
      exact .inr (.inr ⟨i, _, _, _, _, some e, rfl, hstage, fun longer hnext => .refuse hnext⟩)
  | timeout => exact .inr (.inl fun _ => .timeout _)
  | reader => exact .inr (.inl fun _ => .reader)
  | fault f => exact .inr (.inl fun _ => .fault f)
  | queue stays => exact .inr (.inl fun _ => .queue stays)
  | disk same => exact .inr (.inl fun _ => .disk same)
  | takeEvents => exact .inr (.inl fun _ => .takeEvents)
  | takeErrors => exact .inr (.inl fun _ => .takeErrors)
  | abandonEvents => exact .inr (.inl fun _ => .abandonEvents)
  | abandonErrors => exact .inr (.inl fun _ => .abandonErrors)

/-- A script of the calls made so far.  It may say what it likes about a registration that has yet to ask
the kernel. -/
structure Scripted (s₀ : Interplay) (script : List Errand) (s : Interplay) : Prop where
  leads : Leads (Steady script) s₀ s
  length : script.length = s.calls.length
  undecided : ∀ {i : Nat} {p o progress}, s.calls[i]? = some (Call.add p o progress) →
    (Call.add p o progress).mayAsk = true → ∀ e, Leads (Steady (script.set i (.add p o e))) s₀ s

theorem not_hasReturned_of_mayAsk {c : Call} (asks : c.mayAsk = true) : c.hasReturned = false := by
  unfold Call.mayAsk at asks
  split at asks <;> first | rfl | cases asks

theorem add_of_mayAsk {c d : Call} (asks : c.mayAsk = true) (request : c.request = d.request) :
    ∃ p o progress, d = .add p o progress := by
  unfold Call.mayAsk at asks
  cases d with
  | add p o progress => exact ⟨p, o, progress, rfl⟩
  | remove | list | close => split at asks <;> first | cases request | cases asks

/-- A registration that may yet ask the kernel could do so before its last step, but did not. -/
theorem mayAsk_of_callStep {c d : Call} (step : s.CallStep i m d c u) (asks : c.mayAsk = true) :
    d.mayAsk = true ∧ ∀ p o wanted known, d ≠ .add p o (.inside (.asking wanted known)) := by
  cases step with
  | addKnocks knock =>
    obtain ⟨rfl, -⟩ | ⟨rfl, -⟩ | ⟨-, rfl⟩ := Progress.knock_cases knock
    · exact ⟨rfl, by rintro _ _ _ _ ⟨⟩⟩
    · exact ⟨rfl, by rintro _ _ _ _ ⟨⟩⟩
    · cases asks
  | addLooks => exact ⟨rfl, by rintro _ _ _ _ ⟨⟩⟩
  | _ => cases asks

theorem length_of_touches (htouches : s.Touches m t) (hold : ∀ c, m ≠ .begin c) :
    t.calls.length = s.calls.length := by
  cases htouches with
  | none _ calls _ => rw [calls]
  | newcomer c mover _ _ _ _ _ => exact absurd mover (hold c)
  | one i c c' _ _ passes => rw [passes.calls, List.length_set]

variable {s₀ : Interplay}

namespace Scripted

/-- A call is begun. -/
theorem of_begin {q : Errand} (scripted : Scripted s₀ script s) (idle : s.allReturned = true)
    (hfire : s.fire (.begin q.call) = some t) : Scripted s₀ (script ++ [q]) t := by
  have hleads : ∀ x : Errand, x.call = q.call → Leads (Steady (script ++ [x])) s₀ t := by
    intro x hx
    have hbefore : Leads (Steady (script ++ [x])) s₀ s := scripted.leads.mono fun _ _ =>
      .extend fun hq => (List.getElem?_append_left (List.getElem?_eq_some_iff.mp hq).1).trans hq
    refine .step hbefore (.begin idle ?_) (hx ▸ hfire)
    rw [← scripted.length, List.getElem?_concat_length]
  have hcalls : t.calls = s.calls ++ [q.call] := by
    cases step_of_fire hfire with
    | begin => rfl
    | call stage step => cases step.caller
  refine ⟨hleads q rfl, ?_, fun {i p o progress} hc asks e => ?_⟩
  · rw [hcalls, List.length_append, List.length_append, scripted.length]
    rfl
  · rw [hcalls] at hc
    rcases getElem?_concat_cases hc with hold | ⟨rfl, hnew⟩
    · have hreturned := List.all_eq_true.mp idle _ (List.mem_of_getElem? hold)
      rw [not_hasReturned_of_mayAsk asks] at hreturned
      cases hreturned
    · rw [← scripted.length, List.set_append_right _ _ (Nat.le_refl _), Nat.sub_self]
      refine hleads (.add p o e) ?_
      cases q with
      | add =>
        cases hnew
        rfl
      | remove | list => cases hnew

/-- A move is made that the script says nothing about. -/
theorem of_free (hs : Reachable s) (scripted : Scripted s₀ script s)
    (free : ∀ longer, Steady longer s m) (hfire : s.fire m = some t) : Scripted s₀ script t := by
  have htouches := (effect_of_fire hs.legible hfire).2
  have hold : ∀ c, m ≠ .begin c := by
    rintro c rfl
    cases free [] with
    | begin _ next => cases next
  refine ⟨.step scripted.leads (free script) hfire,
    scripted.length.trans (length_of_touches htouches hold).symm, fun hc asks e => ?_⟩
  rcases call_of_fire hfire hc with hsame | ⟨hbegin, -⟩ | ⟨d, u, hd, step, -⟩
  · exact .step (scripted.undecided hsame asks e) (free _) hfire
  · exact absurd hbegin (hold _)
  · obtain ⟨hasked, -⟩ := mayAsk_of_callStep step asks
    have request := (effect_of_callStep hd step).2.request
    obtain ⟨p', o', progress', rfl⟩ := add_of_mayAsk asks request
    obtain ⟨rfl, rfl⟩ := Request.add.inj request
    exact .step (scripted.undecided hd hasked e) (free _) hfire

/-- The kernel answers, and its answer is written down. -/
theorem of_asking (hs : Reachable s) (served : s.Served find script) (scripted : Scripted s₀ script s)
    {p : Path} {o : WatchOptions} {e : Option Errno} {wanted : Mask} {known : Bool}
    (mover : m.caller? = some i)
    (stage : s.calls[i]? = some (.add p o (.inside (.asking wanted known))))
    (decided : ∀ longer : List Errand, longer[i]? = some (.add p o e) → Steady longer s m)
    (hfire : s.fire m = some t) : Scripted s₀ (script.set i (.add p o e)) t := by
  have htouches := (effect_of_fire hs.legible hfire).2
  have hold : ∀ c, m ≠ .begin c := by
    rintro c rfl
    cases mover
  have hi : i < script.length := scripted.length ▸ (List.getElem?_eq_some_iff.mp stage).1
  have hlength := length_of_touches htouches hold
  refine ⟨.step (scripted.undecided stage rfl e) (decided _ (List.getElem?_set_self hi)) hfire, ?_,
    fun {j p' o' progress} hc asks _ => ?_⟩
  · rw [List.length_set, scripted.length, hlength]
  · -- the call that was told is the only one that has not returned
    exfalso
    obtain ⟨c', u, step, rfl⟩ := callStep_of_fire stage mover hfire
    obtain rfl : j = i := by
      rcases call_of_touches htouches hc with hsame | ⟨-, hbegin, -⟩ | ⟨d, mover', -, -⟩
      · obtain ⟨hlast, -⟩ := served.lone hsame (not_hasReturned_of_mayAsk asks)
        obtain ⟨hlast', -⟩ := served.lone stage rfl
        omega
      · exact absurd hbegin (hold _)
      · exact Option.some.inj (mover'.symm.trans mover)
    rw [step.after stage, Option.some.injEq] at hc
    subst hc
    exact (mayAsk_of_callStep step asks).2 _ _ _ _ rfl

end Scripted

/-- **One script will do** for moves that are each steady for some script. -/
theorem exists_script {settings : Settings} {tree : Tree} {limit : Nat} (room : 0 < limit)
    (led : Leads Orderly (start settings tree limit) s) :
    ∃ script, Leads (Steady script) (start settings tree limit) s := by
  have hstart : Reachable (start settings tree limit) := ⟨settings, tree, limit, .refl⟩
  suffices ∃ script, Scripted (start settings tree limit) script s by
    obtain ⟨script, scripted⟩ := this
    exact ⟨script, scripted.leads⟩
  induction led with
  | refl => exact ⟨[], .refl, rfl, nofun⟩
  | step before allowed fired ih =>
    obtain ⟨script, scripted⟩ := ih
    have hs := hstart.leads before
    obtain ⟨_, steady⟩ := allowed
    rcases steady.reads_script fired with ⟨q, rfl, idle⟩ | free |
      ⟨i, p, o, wanted, known, e, mover, stage, decided⟩
    · exact ⟨_, scripted.of_begin idle fired⟩
    · exact ⟨_, scripted.of_free hs free fired⟩
    · have served := (served_start settings tree room script).of_leads hstart scripted.leads
      exact ⟨_, scripted.of_asking hs served mover stage decided fired⟩

end Interplay

end FileWatch

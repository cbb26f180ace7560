import InstrumentFlow.Proofs.Serving.Account
import InstrumentFlow.Proofs.Transactions.Aside

/-!
# Transactions in the ledger and in the journal

A transaction waits, then it is answered, then its answer is collected; it may be given up before
that. Of each of these things the journal tells once.

* `Outcome.Becomes` -- how far a transaction may come;
* `Ledger.Serves` -- transactions that wait are answered or given up, and nothing else happens;
* `collections`, `dispatches` -- the transactions whose answer was collected, and those that were
  sent;
* `News` -- what the journal tells agrees with what became of the ledger;
* `Trades`, `Uses` -- transactions between two states, where answers are given, and where none are;
* `Aside.uses`, `uses_dispatched`, `uses_collected`, ... -- what happens to transactions.
-/

namespace InstrumentFlow

/-! ## 1. Ledgers -/

namespace Scpi

/-- **How far a transaction may come**: one that waits may come anywhere, and any may be over. -/
def Outcome.Becomes (o o' : Outcome) : Prop := o' = o ∨ o = .waiting ∨ o' = .closed

namespace Outcome.Becomes

theorem refl (o : Outcome) : o.Becomes o := Or.inl rfl

theorem trans {o o' o'' : Outcome} (h : o.Becomes o') (h' : o'.Becomes o'') : o.Becomes o'' := by
  rcases h with rfl | hw | rfl
  · exact h'
  · exact Or.inr (Or.inl hw)
  · rcases h' with rfl | hw | hc
    · exact Or.inr (Or.inr rfl)
    · cases hw
    · exact Or.inr (Or.inr hc)

theorem of_closed {o : Outcome} (h : closed.Becomes o) : o = closed := by
  rcases h with h | h | h
  · exact h
  · cases h
  · exact h

end Outcome.Becomes

/-- **Transactions that wait are answered or given up**, and nothing else happens. -/
structure Ledger.Serves (l l' : Ledger) : Prop where
  size : l'.outcomes.size = l.outcomes.size
  others : ∀ n, l.outcome? n ≠ some .waiting → l'.outcome? n = l.outcome? n

namespace Ledger.Serves

theorem refl (l : Ledger) : l.Serves l := ⟨rfl, fun _ _ => rfl⟩

theorem trans {l l' l'' : Ledger} (h : l.Serves l') (h' : l'.Serves l'') : l.Serves l'' where
  size := h'.size.trans h.size
  others n hn := by
    have hfirst := h.others n hn
    rw [← hfirst]
    exact h'.others n (hfirst ▸ hn)

theorem replace {l : Ledger} {n : Nat} (h : l.outcome? n = some .waiting) (o : Outcome) :
    l.Serves (l.replace n o) where
  size := l.size_replace n o
  others m hm := by
    rw [outcome?_replace, if_neg]
    intro hmn
    rw [hmn.1] at hm
    exact hm h

theorem answer (l : Ledger) (n : Nat) (r : Response) : l.Serves (l.answer n r) := by
  unfold Ledger.answer
  split
  · next h => exact replace h _
  · exact refl l

theorem close (l : Ledger) (n : Nat) : l.Serves (l.close n) := by
  unfold Ledger.close
  split
  · next h => exact replace h _
  · exact refl l

theorem closeAll (l : Ledger) (requests : List Request) : l.Serves (l.closeAll requests) := by
  unfold Ledger.closeAll
  induction requests generalizing l with
  | nil => exact refl l
  | cons r requests ih => exact (close l r.transaction).trans (ih _)

theorem becomes {l l' : Ledger} (h : l.Serves l') {n : Nat} {o : Outcome}
    (ho : l.outcome? n = some o) : ∃ o', l'.outcome? n = some o' ∧ o.Becomes o' := by
  by_cases hw : o = .waiting
  · subst hw
    have hlt : n < l'.outcomes.size := by
      rw [h.size]
      exact lt_of_outcome? ho
    exact ⟨_, Array.getElem?_eq_getElem hlt, Or.inr (Or.inl rfl)⟩
  · refine ⟨o, (h.others n fun hn => hw ?_).trans ho, .refl o⟩
    exact Option.some.inj (ho.symm.trans hn)

end Ledger.Serves

/-- No answer is given by giving up. -/
theorem Ledger.answered_of_close {l : Ledger} {n m : Nat} {r : Response}
    (h : (l.close n).outcome? m = some (.answered r)) : l.outcome? m = some (.answered r) := by
  unfold Ledger.close at h
  split at h
  · rw [outcome?_replace] at h
    split at h
    · cases h
    · exact h
  · exact h

theorem Ledger.answered_of_closeAll {l : Ledger} {requests : List Request} {m : Nat} {r : Response}
    (h : (l.closeAll requests).outcome? m = some (.answered r)) :
    l.outcome? m = some (.answered r) := by
  unfold Ledger.closeAll at h
  induction requests generalizing l with
  | nil => exact h
  | cons q requests ih => exact answered_of_close (ih h)

/-- A transaction that begins, and has no answer, changes nothing about the others. -/
theorem Ledger.outcome?_begun {l l' : Ledger} {o : Outcome} (hne : ∀ r, o ≠ .answered r)
    (h : ∀ m, l'.outcome? m = if m = l.outcomes.size then some o else l.outcome? m) :
    (∀ n o, l.outcome? n = some o → l'.outcome? n = some o)
      ∧ ∀ n r, l'.outcome? n = some (.answered r) → l.outcome? n = some (.answered r) := by
  refine ⟨fun n o' ho => ?_, fun n r hr => ?_⟩
  · rw [h, if_neg]
    · exact ho
    · exact Nat.ne_of_lt (Ledger.lt_of_outcome? ho)
  · rw [h] at hr
    split at hr
    · exact absurd (Option.some.inj hr) (hne r)
    · exact hr

/-- What a poll hands over was there. -/
theorem Ledger.outcome?_of_poll {l : Ledger} {n : Nat} {r : Response}
    (h : (l.poll n).1 = .ok (some r)) : l.outcome? n = some (.answered r) := by
  unfold Ledger.poll at h
  split at h
  · cases Except.ok.inj h
  · next ho =>
    rw [ho, Option.some.inj (Except.ok.inj h)]
  · cases h

/-- A poll that hands nothing over changes nothing. -/
theorem Ledger.poll_snd_of_ne {l : Ledger} {n : Nat} (h : ∀ r, (l.poll n).1 ≠ .ok (some r)) :
    (l.poll n).2 = l := by
  unfold Ledger.poll at h ⊢
  split
  · rfl
  · next r ho =>
    rw [ho] at h
    exact absurd rfl (h r)
  · rfl

end Scpi

open Scpi

/-! ## 2. Journals -/

namespace Event

/-- The transaction whose answer is collected. -/
def collection? : Event → Option Nat
  | collected _ _ transaction _ => some transaction
  | _ => none

/-- The transaction that is sent. -/
def dispatch? : Event → Option Nat
  | dispatched _ _ r => some r.transaction
  | _ => none

end Event

/-- The transactions whose answers were collected. -/
def collections (events : List Event) : List Nat := events.filterMap Event.collection?

/-- The transactions that were sent. -/
def dispatches (events : List Event) : List Nat := events.filterMap Event.dispatch?

section

variable {events more : List Event}

theorem collections_append : collections (events ++ more) = collections events ++ collections more :=
  List.filterMap_append

theorem dispatches_append : dispatches (events ++ more) = dispatches events ++ dispatches more :=
  List.filterMap_append

theorem mem_collections {n : Nat} :
    n ∈ collections events ↔ ∃ i c r, .collected i c n r ∈ events := by
  refine List.mem_filterMap.trans ⟨fun h => ?_, fun h => ?_⟩
  · obtain ⟨event, hmem, hn⟩ := h
    cases event with
    | collected i c m r =>
      obtain rfl := Option.some.inj hn
      exact ⟨i, c, r, hmem⟩
    | _ => cases hn
  · obtain ⟨i, c, r, hmem⟩ := h
    exact ⟨_, hmem, rfl⟩

theorem collections_of_hushed (h : ∀ event ∈ events, event.isSpeech = false) :
    collections events = [] := by
  refine List.filterMap_eq_nil_iff.mpr fun event hmem => ?_
  have hs := h event hmem
  cases event with
  | collected _ _ _ _ => cases hs
  | _ => rfl

theorem dispatches_of_hushed (h : ∀ event ∈ events, event.isSpeech = false) :
    dispatches events = [] := by
  refine List.filterMap_eq_nil_iff.mpr fun event hmem => ?_
  have hs := h event hmem
  cases event with
  | dispatched _ _ _ => cases hs
  | _ => rfl

end

/-- **What the journal tells agrees with what became of the ledger**: answers that were there are
    collected, each once, and new transactions are sent, each once. -/
structure News (l l' : Ledger) (news : List Event) : Prop where
  once : (collections news).Nodup
  collected : ∀ i c n r, .collected i c n r ∈ news →
    l.outcome? n = some (.answered r) ∧ l'.outcome? n = some .closed
  distinct : (dispatches news).Nodup
  fresh : ∀ n ∈ dispatches news, l.outcomes.size ≤ n ∧ n < l'.outcomes.size

theorem News.of_hushed {l l' : Ledger} {news : List Event}
    (h : ∀ event ∈ news, event.isSpeech = false) : News l l' news where
  once := by
    rw [collections_of_hushed h]
    exact List.nodup_nil
  collected i c n r hmem := nomatch h _ hmem
  distinct := by
    rw [dispatches_of_hushed h]
    exact List.nodup_nil
  fresh n hn := by
    rw [dispatches_of_hushed h] at hn
    cases hn

namespace Engine

/-! ## 3. Transactions between two states -/

/-- **What becomes of transactions** between two states; `gives` tells which answers may be given. -/
structure Trades (gives : Nat → Response → Prop) (e e' : Engine) : Prop where
  size : e.ledger.outcomes.size ≤ e'.ledger.outcomes.size
  becomes : ∀ n o, e.ledger.outcome? n = some o →
    ∃ o', e'.ledger.outcome? n = some o' ∧ o.Becomes o'
  answers : ∀ n r, e'.ledger.outcome? n = some (.answered r) →
    e.ledger.outcome? n = some (.answered r) ∨ gives n r
  news : ∃ news, e'.journal = news ++ e.journal ∧ News e.ledger e'.ledger news

/-- Transactions between two states, where no answers are given. -/
abbrev Uses : Engine → Engine → Prop := Trades fun _ _ => False

namespace Trades

variable {gives : Nat → Response → Prop} {e e' e'' : Engine}

/-- Answers are given, and nothing is told. -/
theorem of_serves (hj : e'.journal = e.journal) (hs : e.ledger.Serves e'.ledger)
    (hg : ∀ n r, e.ledger.outcome? n = some .waiting →
      e'.ledger.outcome? n = some (.answered r) → gives n r) : Trades gives e e' where
  size := Nat.le_of_eq hs.size.symm
  becomes _ _ ho := hs.becomes ho
  answers n r hr := by
    by_cases hw : e.ledger.outcome? n = some .waiting
    · exact Or.inr (hg n r hw hr)
    · exact Or.inl ((hs.others n hw).symm.trans hr)
  news := ⟨[], hj, .of_hushed fun _ h => nomatch h⟩

/-- Nothing is said to the instrument. -/
theorem of_hushed (hl : e'.ledger = e.ledger) (hs : Adds Event.isSpeech e e') :
    Trades gives e e' := by
  obtain ⟨news, hj, hn⟩ := hs
  refine ⟨?_, fun n o ho => ⟨o, ?_, .refl o⟩, fun n r hr => Or.inl ?_, news, hj, .of_hushed hn⟩
  · rw [hl]
  · rwa [hl]
  · rwa [hl] at hr

theorem mono {gives' : Nat → Response → Prop} (h : Trades gives e e')
    (hg : ∀ n r, gives n r → gives' n r) : Trades gives' e e' where
  size := h.size
  becomes := h.becomes
  answers n r hr := (h.answers n r hr).imp id (hg n r)
  news := h.news

/-- What is over stays so. -/
theorem closed (h : Trades gives e e') {n : Nat} (hc : e.ledger.outcome? n = some .closed) :
    e'.ledger.outcome? n = some .closed := by
  obtain ⟨o, ho, hb⟩ := h.becomes n _ hc
  rw [ho, hb.of_closed]

end Trades

namespace Uses

variable {e e' e'' : Engine}

theorem refl (e : Engine) : Uses e e := .of_hushed rfl (.refl e)

theorem answered (h : Uses e e') {n : Nat} {r : Response}
    (hr : e'.ledger.outcome? n = some (.answered r)) : e.ledger.outcome? n = some (.answered r) :=
  (h.answers n r hr).resolve_right id

/-- **What is collected later was not collected before**, and what is sent later is another
    transaction. -/
theorem trans (h : Uses e e') (h' : Uses e' e'') : Uses e e'' := by
  obtain ⟨news, hj, hn⟩ := h.news
  obtain ⟨news', hj', hn'⟩ := h'.news
  refine ⟨Nat.le_trans h.size h'.size, fun n o ho => ?_, fun n r hr => ?_, news' ++ news, ?_, ?_⟩
  · obtain ⟨o', ho', hb⟩ := h.becomes n o ho
    obtain ⟨o'', ho'', hb'⟩ := h'.becomes n o' ho'
    exact ⟨o'', ho'', hb.trans hb'⟩
  · exact Or.inl (h.answered (h'.answered hr))
  · rw [hj', hj, List.append_assoc]
  refine ⟨?_, fun i c n r hmem => ?_, ?_, fun n hmem => ?_⟩
  · rw [collections_append]
    refine List.nodup_append.mpr ⟨hn'.once, hn.once, fun n hlater m hearlier => ?_⟩
    rintro rfl
    obtain ⟨i', c', r', hlater⟩ := mem_collections.mp hlater
    obtain ⟨i, c, r, hearlier⟩ := mem_collections.mp hearlier
    cases (hn'.collected _ _ _ _ hlater).1.symm.trans (hn.collected _ _ _ _ hearlier).2
  · rcases List.mem_append.mp hmem with hmem | hmem
    · obtain ⟨hr, hc⟩ := hn'.collected i c n r hmem
      exact ⟨h.answered hr, hc⟩
    · obtain ⟨hr, hc⟩ := hn.collected i c n r hmem
      exact ⟨hr, h'.closed hc⟩
  · rw [dispatches_append]
    refine List.nodup_append.mpr ⟨hn'.distinct, hn.distinct, fun n hlater m hearlier => ?_⟩
    have hge := (hn'.fresh n hlater).1
    have hlt := (hn.fresh m hearlier).2
    omega
  · rw [dispatches_append] at hmem
    have hsize := h.size
    have hsize' := h'.size
    rcases List.mem_append.mp hmem with hmem | hmem
    · have hfresh := hn'.fresh n hmem
      omega
    · have hfresh := hn.fresh n hmem
      omega

end Uses

theorem Aside.uses {own : InstanceId → Nat → Bool} {e e' : Engine} (h : Aside own e e') :
    Uses e e' := .of_hushed h.ledger h.hushed

/-! ## 4. What happens to transactions -/

section

variable {e : Engine} (i : InstanceId) (c : Nat)

/-- **A request goes out.** -/
theorem uses_dispatched (kind : RequestKind) (text : String) (dispatcher : Dispatcher) :
    Uses e ({ e with ledger := e.ledger.start.2, dispatcher }.record
      (.dispatched i c ⟨e.ledger.start.1, kind, text⟩)) := by
  obtain ⟨hold, hanswers⟩ := Ledger.outcome?_begun (o := .waiting) (fun _ h => nomatch h)
    e.ledger.outcome?_start
  refine ⟨?_, fun n o ho => ⟨o, hold n o ho, .refl o⟩, fun n r hr => Or.inl (hanswers n r hr),
    [_], rfl, List.nodup_nil, fun j k n r hmem => ?_, List.nodup_singleton _, fun n hmem => ?_⟩
  · show _ ≤ e.ledger.start.2.outcomes.size
    rw [Ledger.size_start]
    exact Nat.le_succ _
  · cases List.mem_singleton.mp hmem
  · obtain rfl : n = e.ledger.outcomes.size := List.mem_singleton.mp hmem
    refine ⟨Nat.le_refl _, ?_⟩
    show _ < e.ledger.start.2.outcomes.size
    rw [Ledger.size_start]
    exact Nat.lt_succ_self _

/-- **A request is refused**, and its transaction is over. -/
theorem uses_refused : Uses e { e with ledger := e.ledger.start.2.close e.ledger.start.1 } := by
  obtain ⟨hold, hanswers⟩ := Ledger.outcome?_begun (o := .closed) (fun _ h => nomatch h)
    e.ledger.outcome?_start_close
  refine ⟨?_, fun n o ho => ⟨o, hold n o ho, .refl o⟩, fun n r hr => Or.inl (hanswers n r hr),
    [], rfl, .of_hushed fun _ h => nomatch h⟩
  show _ ≤ (e.ledger.start.2.close e.ledger.start.1).outcomes.size
  rw [Ledger.size_close, Ledger.size_start]
  exact Nat.le_succ _

/-- **An answer is collected.** -/
theorem uses_collected {n : Nat} {r : Response} (h : e.ledger.outcome? n = some (.answered r)) :
    Uses e ({ e with ledger := (e.ledger.poll n).2 }.record (.collected i c n r)) := by
  have hpoll := Ledger.poll_spec h
  refine ⟨?_, fun m o ho => ?_, fun m r' hr => Or.inl ?_, [_], rfl, List.nodup_singleton _,
    fun j k m r' hmem => ?_, List.nodup_nil, fun m hmem => nomatch hmem⟩
  · show _ ≤ (e.ledger.poll n).2.outcomes.size
    rw [Ledger.size_poll]
  · show ∃ o', (e.ledger.poll n).2.outcome? m = some o' ∧ _
    rw [hpoll]
    split
    · exact ⟨_, rfl, Or.inr (Or.inr rfl)⟩
    · exact ⟨o, ho, .refl o⟩
  · change (e.ledger.poll n).2.outcome? m = _ at hr
    rw [hpoll] at hr
    split at hr
    · cases hr
    · exact hr
  · obtain ⟨rfl, rfl, rfl, rfl⟩ := Event.collected.inj (List.mem_singleton.mp hmem)
    refine ⟨h, ?_⟩
    show (e.ledger.poll m).2.outcome? m = _
    rw [hpoll, if_pos rfl]
    rfl

end

end Engine

end InstrumentFlow

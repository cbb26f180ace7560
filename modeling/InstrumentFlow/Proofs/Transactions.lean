import InstrumentFlow.Proofs.Transactions.Orders

/-!
# One request at a time

Every component with SCPI sends one request at a time, and collects the answer that was given to it,
whatever runs beside it and in whatever order the instrument answers.

* `Move.Gives` -- a move gives an answer to a transaction that waits;
* `Move.Honest` -- whoever serves requests answers those that wait, or gives them up;
* `trades_move`, `settled_after` -- what becomes of requests in a move, and in a row of them;
* `Given`, `Booked` -- an answer was given in a run; the journal and the ledger of a run agree;
* `Conversations` -- what holds of the requests of a run;
* `requests_one_at_a_time` -- it holds of every run.
-/

namespace InstrumentFlow

open Scpi

/-! ## 1. Answers -/

/-- **A move gives an answer to a transaction that waits**: the host answers the request that it took,
    or whoever serves requests does. -/
def Move.Gives (e : Engine) (n : Nat) (r : Response) (m : Move) : Prop :=
  e.ledger.outcome? n = some .waiting ∧
    match m with
    | .order o => ∃ number q, o.command = .respond number r
        ∧ (e.settleRequest number).1 = some q ∧ q.transaction = n
    | .serve ledger _ => ledger.outcome? n = some (.answered r)
    | _ => False

/-- **Whoever serves requests** answers those that wait, or gives them up, and does nothing else to
    them. -/
def Move.Honest (e : Engine) : Move → Prop
  | .serve ledger _ => e.ledger.Serves ledger
  | _ => True

namespace Engine

theorem Trades.congr {gives : Nat → Response → Prop} {e e' e'' : Engine} (h : Trades gives e e')
    (hl : e''.ledger = e'.ledger) (hj : e''.journal = e'.journal) : Trades gives e e'' := by
  obtain ⟨hsize, hbecomes, hanswers, news, hnews⟩ := h
  rw [← hl] at hsize hbecomes hanswers hnews
  rw [← hj] at hnews
  exact ⟨hsize, hbecomes, hanswers, news, hnews⟩

theorem answered_of_answer {l : Ledger} {n m : Nat} {r r' : Response}
    (hw : l.outcome? m = some .waiting) (h : (l.answer n r).outcome? m = some (.answered r')) :
    m = n ∧ r' = r := by
  unfold Ledger.answer at h
  split at h
  · rw [Ledger.outcome?_replace] at h
    split at h
    · next hm =>
      obtain rfl : r = r' := Outcome.answered.inj (Option.some.inj h)
      exact ⟨hm.1, rfl⟩
    · cases hw.symm.trans h
  · cases hw.symm.trans h

/-- **The host answers a request that it took.** -/
theorem trades_respond {e : Engine} (hs : e.Settled) (number : Nat) (response : Response) :
    (e.respond number response).2.Settled
      ∧ Trades (fun n r => e.ledger.outcome? n = some .waiting ∧ r = response
          ∧ ∃ q, (e.settleRequest number).1 = some q ∧ q.transaction = n)
        e (e.respond number response).2 := by
  have hledger : (e.settleRequest number).2.ledger = e.ledger := by rw [settleRequest_snd]
  have hjournal : (e.settleRequest number).2.journal = e.journal := by rw [settleRequest_snd]
  have hsettle := tends_settleRequest e number hs
  unfold respond
  split
  · next he =>
    rw [he] at hsettle
    exact ⟨hsettle.1, hsettle.2.mono fun _ _ => False.elim⟩
  · next q e₁ he =>
    rw [he] at hsettle hledger hjournal
    dsimp only at hledger hjournal
    refine ⟨hsettle.1.congr rfl rfl, .of_serves hjournal ?_ fun n r hw hr => ?_⟩
    · show e.ledger.Serves (e₁.ledger.answer q.transaction response)
      rw [hledger]
      exact .answer e.ledger q.transaction response
    · change (e₁.ledger.answer q.transaction response).outcome? n = _ at hr
      rw [hledger] at hr
      obtain ⟨rfl, rfl⟩ := answered_of_answer hw hr
      exact ⟨hw, rfl, q, by rw [he], rfl⟩

/-! ## 2. Moves -/

section

variable {e : Engine} (hst : e.Standing) (hs : e.Settled)
include hst hs

theorem trades_performOrder (o : Order) :
    (performOrder handler o e).2.Settled
      ∧ Trades (fun n r => (Move.order o).Gives e n r) e (performOrder handler o e).2 := by
  have hperform : (perform handler o.command e).2.Settled
      ∧ Trades (fun n r => (Move.order o).Gives e n r) e (perform handler o.command e).2 := by
    by_cases hrespond : ∃ number response, o.command = .respond number response
    · obtain ⟨number, response, hcommand⟩ := hrespond
      obtain ⟨hsettled, htrades⟩ := trades_respond hs number response
      rw [hcommand, perform_respond]
      refine ⟨hsettled, htrades.mono fun n r hgives => ?_⟩
      obtain ⟨hw, rfl, q, hq, hn⟩ := hgives
      exact ⟨hw, number, q, hcommand, hq, hn⟩
    · obtain ⟨hsettled, huses⟩ := tends_perform (handlerLeaps_handler False) hst o.command
        (fun number response hcommand => hrespond ⟨number, response, hcommand⟩) hs
      exact ⟨hsettled, huses.mono fun _ _ => False.elim⟩
  rcases performOrder_cases handler o e with he | ⟨_, _, he⟩
  · rwa [he]
  · rw [he]
    exact ⟨hperform.1.congr rfl rfl, hperform.2.congr rfl rfl⟩

/-- **A move**: every component sends one request at a time, and the only answers that come are those
    that the move gives. -/
theorem trades_move {m : Move} (hm : m.Honest e) :
    (e.move m).Settled ∧ Trades (fun n r => m.Gives e n r) e (e.move m) := by
  have hh := handlerLeaps_handler False
  have htends {e' : Engine} (h : Tends e e') :
      e'.Settled ∧ Trades (fun n r => m.Gives e n r) e e' :=
    ⟨(h hs).1, (h hs).2.mono fun _ _ => False.elim⟩
  cases m with
  | order o => exact trades_performOrder hst hs o
  | tick allowance => exact htends (tends_tick hh hst allowance)
  | idle allowance maxTicks => exact htends (tends_runUntilIdle hh allowance maxTicks hst)
  | pass clock => exact htends (.beside rfl rfl rfl)
  | turn host => exact htends (.beside rfl rfl rfl)
  | serve ledger dispatcher =>
    exact ⟨hs.congr rfl rfl, .of_serves rfl hm fun n r hw hr => ⟨hw, hr⟩⟩

omit hs in
theorem Standing.move (m : Move) : (e.move m).Standing :=
  hst.leaps (leaps_move hst.inv False.elim id .refl m False.elim False.elim)

omit hst hs in
/-- **An answer that is given** is there after that. -/
theorem outcome?_of_gives {m : Move} {n : Nat} {r : Response} (h : m.Gives e n r) :
    (e.move m).ledger.outcome? n = some (.answered r) := by
  obtain ⟨hw, hgives⟩ := h
  cases m with
  | order o =>
    obtain ⟨number, q, hcommand, hq, rfl⟩ := hgives
    have hsettle : e.settleRequest number = (some q, (e.settleRequest number).2) :=
      Prod.ext hq rfl
    have hledger : (e.settleRequest number).2.ledger = e.ledger := by rw [settleRequest_snd]
    have hrespond : (e.respond number r).2.ledger = e.ledger.answer q.transaction r := by
      unfold respond
      rw [hsettle]
      show (e.settleRequest number).2.ledger.answer q.transaction r = _
      rw [hledger]
    have hperform : (perform handler o.command e).2.ledger = e.ledger.answer q.transaction r := by
      rw [← hrespond, hcommand, perform_respond]
    have horder : (performOrder handler o e).2.ledger = e.ledger.answer q.transaction r := by
      rw [← hperform]
      rcases performOrder_cases handler o e with he | ⟨_, _, he⟩ <;> rw [he]
    show (performOrder handler o e).2.ledger.outcome? q.transaction = _
    rw [horder, Ledger.outcome?_answer hw, if_pos rfl]
  | serve ledger dispatcher => exact hgives
  | _ => exact hgives.elim

end

/-! ## 3. Runs -/

/-- All who serve requests in a run are honest. -/
def HonestRun (e : Engine) (moves : List Move) : Prop :=
  ∀ before m behind, moves = before ++ m :: behind → m.Honest (e.after before)

/-- **An answer was given in a run**, once, and before it was collected. -/
def Given (e : Engine) (moves : List Move) (n : Nat) (r : Response) : Prop :=
  ∃ before m behind, moves = before ++ m :: behind ∧ m.Gives (e.after before) n r
    ∧ (∀ i c r', .collected i c n r' ∉ (e.after before).journal)
    ∧ ∀ before' m' behind' r', moves = before' ++ m' :: behind' →
      m'.Gives (e.after before') n r' → before' = before ∧ r' = r

theorem after_append (e : Engine) (moves more : List Move) :
    e.after (moves ++ more) = (e.after moves).after more := List.foldl_append

theorem HonestRun.tail {e : Engine} {m : Move} {moves : List Move} (h : HonestRun e (m :: moves)) :
    HonestRun (e.move m) moves := by
  intro before m' behind heq
  refine h (m :: before) m' behind ?_
  rw [heq]
  rfl

theorem HonestRun.of_append {e : Engine} {moves more : List Move} (h : HonestRun e (moves ++ more)) :
    HonestRun e moves ∧ HonestRun (e.after moves) more := by
  refine ⟨fun before m behind heq => ?_, fun before m behind heq => ?_⟩
  · refine h before m (behind ++ more) ?_
    rw [heq]
    simp
  · rw [← after_append]
    refine h (moves ++ before) m behind ?_
    rw [heq]
    simp

/-- **A row of moves**: states stay settled, and transactions only go on. -/
theorem settled_after {e : Engine} (hst : e.Standing) (hs : e.Settled) {moves : List Move}
    (hm : HonestRun e moves) :
    (e.after moves).Standing ∧ (e.after moves).Settled ∧ ∀ n o, e.ledger.outcome? n = some o →
      ∃ o', (e.after moves).ledger.outcome? n = some o' ∧ o.Becomes o' := by
  induction moves generalizing e with
  | nil => exact ⟨hst, hs, fun n o ho => ⟨o, ho, .refl o⟩⟩
  | cons m moves ih =>
    obtain ⟨hs₁, htrades⟩ := trades_move hst hs (hm [] m moves rfl)
    obtain ⟨hst', hs', hbecomes⟩ := ih (hst.move m) hs₁ hm.tail
    refine ⟨hst', hs', fun n o ho => ?_⟩
    obtain ⟨o₁, ho₁, hb⟩ := htrades.becomes n o ho
    obtain ⟨o', ho', hb'⟩ := hbecomes n o₁ ho₁
    exact ⟨o', ho', hb.trans hb'⟩

/-- An answer that is given is never given again. -/
theorem not_gives_later {e : Engine} (hst : e.Standing) (hs : e.Settled) {m m' : Move}
    {between : List Move} {n : Nat} {r r' : Response} (hm : HonestRun e (m :: between))
    (hgives : m.Gives e n r) (hgives' : m'.Gives (e.after (m :: between)) n r') : False := by
  have hs₁ := (trades_move hst hs (hm [] m between rfl)).1
  obtain ⟨_, _, hbecomes⟩ := settled_after (hst.move m) hs₁ hm.tail
  obtain ⟨o', ho', hb⟩ := hbecomes n _ (outcome?_of_gives hgives)
  obtain rfl : o' = .waiting := Option.some.inj (ho'.symm.trans hgives'.1)
  rcases hb with hb | hb | hb
  · cases hb
  · cases hb
  · cases hb

/-- **The journal and the ledger of a run agree.** -/
structure Booked (e : Engine) (moves : List Move) : Prop where
  distinct : (dispatches (e.after moves).journal).Nodup
  sized : ∀ n ∈ dispatches (e.after moves).journal, n < (e.after moves).ledger.outcomes.size
  once : (collections (e.after moves).journal).Nodup
  closed : ∀ i c n r, .collected i c n r ∈ (e.after moves).journal →
    (e.after moves).ledger.outcome? n = some .closed
  answered : ∀ n r, (e.after moves).ledger.outcome? n = some (.answered r) →
    ∃ before m behind, moves = before ++ m :: behind ∧ m.Gives (e.after before) n r
  collected : ∀ i c n r, .collected i c n r ∈ (e.after moves).journal →
    ∃ before m behind, moves = before ++ m :: behind ∧ m.Gives (e.after before) n r

/-- What was given in a run was given in every longer one. -/
theorem gives_concat {e : Engine} {moves : List Move} {n : Nat} {r : Response} (m' : Move)
    (h : ∃ before m behind, moves = before ++ m :: behind ∧ m.Gives (e.after before) n r) :
    ∃ before m behind, moves ++ [m'] = before ++ m :: behind ∧ m.Gives (e.after before) n r := by
  obtain ⟨before, m, behind, rfl, hgives⟩ := h
  exact ⟨before, m, behind ++ [m'], by simp, hgives⟩

/-- **One more move.** -/
theorem Booked.concat {e : Engine} {moves : List Move} {m : Move} (h : Booked e moves)
    (ht : Trades (fun n r => m.Gives (e.after moves) n r) (e.after moves) ((e.after moves).move m)) :
    Booked e (moves ++ [m]) := by
  have hafter : e.after (moves ++ [m]) = (e.after moves).move m := after_append e moves [m]
  obtain ⟨news, hj, hn⟩ := ht.news
  have hsize := ht.size
  refine ⟨?_, fun n hmem => ?_, ?_, fun i c n r hmem => ?_, fun n r hr => ?_,
    fun i c n r hmem => ?_⟩
  · rw [hafter, hj, dispatches_append]
    refine List.nodup_append.mpr ⟨hn.distinct, h.distinct, fun n hlater m hearlier => ?_⟩
    have hge := (hn.fresh n hlater).1
    have hlt := h.sized m hearlier
    omega
  · rw [hafter, hj, dispatches_append] at hmem
    rw [hafter]
    rcases List.mem_append.mp hmem with hmem | hmem
    · exact (hn.fresh n hmem).2
    · have hlt := h.sized n hmem
      omega
  · rw [hafter, hj, collections_append]
    refine List.nodup_append.mpr ⟨hn.once, h.once, fun n hlater m hearlier hnm => ?_⟩
    subst hnm
    obtain ⟨i', c', r', hlater⟩ := mem_collections.mp hlater
    obtain ⟨i, c, r, hearlier⟩ := mem_collections.mp hearlier
    cases (hn.collected _ _ _ _ hlater).1.symm.trans (h.closed _ _ _ _ hearlier)
  · rw [hafter, hj] at hmem
    rw [hafter]
    rcases List.mem_append.mp hmem with hmem | hmem
    · exact (hn.collected i c n r hmem).2
    · exact ht.closed (h.closed i c n r hmem)
  · rw [hafter] at hr
    rcases ht.answers n r hr with hr | hgives
    · exact gives_concat m (h.answered n r hr)
    · exact ⟨moves, m, [], rfl, hgives⟩
  · rw [hafter, hj] at hmem
    rcases List.mem_append.mp hmem with hmem | hmem
    · exact gives_concat m (h.answered n r (hn.collected i c n r hmem).1)
    · exact gives_concat m (h.collected i c n r hmem)

/-- **The requests of a run.** -/
structure Conversations (e : Engine) (moves : List Move) : Prop where
  /-- A component sends a request when it waits for no answer, and collects the answer for which it
      waits, -/
  inTurn : ∀ i c, InTurn i c (e.after moves).journal
  /-- which is for as long as its progress holds the transaction. -/
  waits : ∀ i c, (outstanding? i c (e.after moves).journal).map (·.transaction)
    = (e.after moves).pendingOf i c
  /-- Before a component sends another request it collects the answer to the one before or is
      released. -/
  released : ∀ i c r r' earlier between later,
    (e.after moves).journal
      = later ++ .dispatched i c r' :: (between ++ .dispatched i c r :: earlier) →
    ∃ event ∈ between, event.releases i c r.transaction = true
  /-- No two requests are one transaction. -/
  distinct : (dispatches (e.after moves).journal).Nodup
  /-- What is collected is the answer to the request that the component sent last, and it was
      given. -/
  own : ∀ i c n r earlier, .collected i c n r :: earlier <:+ (e.after moves).journal →
    (∃ q, lastRequest? i c earlier = some q ∧ q.transaction = n) ∧ Given e moves n r
  /-- No answer is collected twice. -/
  once : (collections (e.after moves).journal).Nodup

section

variable {e : Engine} (hst : e.Standing) (hs : e.Settled) (hb : Booked e []) {moves : List Move}
  (hm : HonestRun e moves)
include hst hs hb hm

theorem booked_after : Booked e moves := by
  induction moves using List.reverseRecOn with
  | nil => exact hb
  | append_singleton moves m ih =>
    obtain ⟨hm₁, hm₂⟩ := hm.of_append
    obtain ⟨hst₁, hs₁, _⟩ := settled_after hst hs hm₁
    exact (ih hm₁).concat (trades_move hst₁ hs₁ (hm₂ [] m [] rfl)).2

omit hb in
/-- Of two moves that give an answer to one transaction none is the later. -/
theorem gives_unique {before before' between behind behind' : List Move} {m m' : Move} {n : Nat}
    {r r' : Response} (heq : moves = before ++ m :: behind) (hbefore : before' = before ++ between)
    (hrest : m :: behind = between ++ m' :: behind') (hgives : m.Gives (e.after before) n r)
    (hgives' : m'.Gives (e.after before') n r') : before' = before ∧ r' = r := by
  subst hbefore
  cases between with
  | nil =>
    rw [List.append_nil] at hgives' ⊢
    obtain ⟨rfl, _⟩ := List.cons.inj hrest
    have hsame := (outcome?_of_gives hgives).symm.trans (outcome?_of_gives hgives')
    exact ⟨rfl, (Outcome.answered.inj (Option.some.inj hsame)).symm⟩
  | cons m₁ between =>
    obtain ⟨rfl, rfl⟩ := List.cons.inj hrest
    rw [heq] at hm
    obtain ⟨hm₁, hm₂⟩ := hm.of_append
    obtain ⟨hst₁, hs₁, _⟩ := settled_after hst hs hm₁
    rw [after_append] at hgives'
    have hm₃ : HonestRun (e.after before) (m :: between) :=
      (hm₂ : HonestRun _ ((m :: between) ++ m' :: behind')).of_append.1
    exact (not_gives_later hst₁ hs₁ hm₃ hgives hgives').elim

/-- An answer that a move gives was given once, and before it was collected. -/
theorem given_of_gives {before behind : List Move} {m : Move} {n : Nat} {r : Response}
    (heq : moves = before ++ m :: behind) (hgives : m.Gives (e.after before) n r) :
    Given e moves n r := by
  refine ⟨before, m, behind, heq, hgives, fun i c r' hmem => ?_,
    fun before' m' behind' r' heq' hgives' => ?_⟩
  · rw [heq] at hm
    have hclosed := (booked_after hst hs hb hm.of_append.1).closed i c n r' hmem
    cases hclosed.symm.trans hgives.1
  · rcases List.append_eq_append_iff.mp (heq.symm.trans heq') with
      ⟨between, hbefore, hrest⟩ | ⟨between, hbefore, hrest⟩
    · exact gives_unique hst hs hm heq hbefore hrest hgives hgives'
    · obtain ⟨hsame, hr⟩ := gives_unique hst hs hm heq' hbefore hrest hgives' hgives
      exact ⟨hsame.symm, hr.symm⟩

theorem conversations_after : Conversations e moves := by
  obtain ⟨_, hs', _⟩ := settled_after hst hs hm
  have hbooked := booked_after hst hs hb hm
  refine ⟨hs'.inTurn, hs'.waits, fun i c r r' earlier between later hj => ?_, hbooked.distinct,
    fun i c n r earlier hsuffix => ⟨?_, ?_⟩, hbooked.once⟩
  · by_contra hnone
    have hkept : ∀ event ∈ between, event.releases i c r.transaction = false := by
      intro event hmem
      exact Bool.eq_false_iff.mpr fun hreleases => hnone ⟨event, hmem, hreleases⟩
    have hturn := hs'.inTurn i c
    have hsuffix : .dispatched i c r' :: (between ++ .dispatched i c r :: earlier)
        <:+ (e.after moves).journal := ⟨later, hj.symm⟩
    have hrest : InTurn i c (between ++ .dispatched i c r :: earlier) := fun event earlier' h =>
      hturn event earlier' (h.trans ((List.suffix_cons _ _).trans hsuffix))
    have hfree := hturn _ _ hsuffix rfl rfl
    cases hfree.symm.trans (hrest.outstanding?_kept hkept)
  · obtain ⟨q, hq, hn⟩ := hs'.inTurn i c _ _ hsuffix rfl rfl
    exact ⟨q, lastRequest?_of_outstanding? hq, hn⟩
  · obtain ⟨before, m, behind, heq, hgives⟩ :=
      hbooked.collected i c n r (hsuffix.mem List.mem_cons_self)
    exact given_of_gives hst hs hb hm heq hgives

end

/-- **One request at a time**: in every run of a program without components of the host, in whatever
    order answers are given, every component sends a request only when it has collected the answer to
    the one before or was released, what it collects is the answer that was given to the request it
    sent last, and no answer is collected twice. -/
theorem requests_one_at_a_time {d : Definition} {config : Config} {dispatcher : Dispatcher}
    {host : Host} {e₀ : Engine} (hb : build d config dispatcher host = .ok e₀) (hh : d.Hostless)
    {moves : List Move} (hm : HonestRun e₀ moves) : Conversations e₀ moves := by
  have hi : Inv False e₀ := inv_build hb False.elim
  obtain ⟨_, rfl⟩ := build_eq_ok_iff.mp hb
  refine conversations_after ⟨hi, hh, placed_built d config dispatcher host⟩ ?_ ?_ hm
  · refine ⟨fun _ _ => rfl, fun i c => ?_, fun i c => .nil i c⟩
    exact (pendingOf_of_empty
      (progress?_of_gone (instance?_built d config dispatcher host i) c)).symm
  · refine ⟨List.nodup_nil, fun n hn => (nomatch hn), List.nodup_nil,
      fun i c n r hmem => (nomatch hmem), fun n r hr => ?_, fun i c n r hmem => (nomatch hmem)⟩
    have hlt : n < 0 := Ledger.lt_of_outcome? hr
    exact absurd hlt (Nat.not_lt_zero n)

/-- A component that asks the instrument once. -/
def askingDefinition : Definition :=
  { flows := [{ name := "main"
                components := [{ kind := .scpi, payload := [1, 2, 0, 86, 63, 4, 6] }] }] }

/-- The host serves its request. -/
def askingMoves : List Move :=
  [.order ⟨.startFlow 0, none⟩, .tick none, .order ⟨.takeRequest, none⟩,
    .order ⟨.respond 0 ⟨"5", 0⟩, none⟩, .tick none]

/-- The program before the first move. -/
def asking : Engine := built askingDefinition {} (.desk { capacity := 4 }) {}

/-- The answer that the host gave is the one that is collected. -/
theorem requests_one_at_a_time_asking :
    build askingDefinition {} (.desk { capacity := 4 }) {} = .ok asking
    ∧ askingDefinition.Hostless ∧ HonestRun asking askingMoves
    ∧ collections (asking.after askingMoves).journal = [0]
    ∧ ∃ i c r, .collected i c 0 r ∈ (asking.after askingMoves).journal
      ∧ Given asking askingMoves 0 r := by
  have hb : build askingDefinition {} (.desk { capacity := 4 }) {} = .ok asking := rfl
  have hh : askingDefinition.Hostless := by decide +kernel
  have hm : HonestRun asking askingMoves := by
    intro before m behind heq
    have hmem : m ∈ askingMoves := heq ▸ List.mem_append_right before List.mem_cons_self
    cases m with
    | serve ledger dispatcher => simp [askingMoves] at hmem
    | _ => trivial
  have hcollected : collections (asking.after askingMoves).journal = [0] := by decide +kernel
  obtain ⟨i, c, r, hmem⟩ := mem_collections.mp (hcollected ▸ List.mem_singleton.mpr rfl)
  obtain ⟨later, earlier, hj⟩ := List.append_of_mem hmem
  exact ⟨hb, hh, hm, hcollected, i, c, r, hmem,
    ((requests_one_at_a_time hb hh hm).own i c 0 r earlier ⟨later, hj.symm⟩).2⟩

end Engine

end InstrumentFlow

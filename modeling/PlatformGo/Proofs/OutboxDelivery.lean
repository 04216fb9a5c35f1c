import PlatformGo.Proofs.OutboxSteps

/-!
# Every committed event is published

An event leaves the pending state in one way only: a dispatcher that has
published an event of its id marks the row. The invariant follows an event
from the transaction that adds it, over the rows a claim copies into memory,
to the publication: whatever a row or a dispatcher holds was added by a
committed transaction, and whatever is marked published, in the table or by a
transaction that has not committed yet, has been published under that id.

Retention makes ids reusable: once a published row is gone, another event may
be added under its id while a late dispatcher still holds the old one, and the
mark of the old one then hits the new row. So what is published is an event
with the id, and the statement about the event itself needs the ids to be
used once.
-/

namespace PlatformGo.Outbox

open RowStore

variable {setup : Setup}

/-! ## The invariant of the table

`P` is the set of ids under which something has been published. It only
grows, so every condition is stated for an arbitrary `P` and kept by a larger
one. -/

/-- The row was written for the event. -/
structure Stores (store : SQLStore) (e : Event) (k : String) (r : Row) :
    Prop where
  id : e.id = k
  subject : e.subject = r.subject
  envelope : ∃ env, e.envelope = some env ∧
    store.marshal env = .ok r.envelope ∧ env.eventId = e.id ∧
    env.eventType = e.subject

/-- A later version of a row: the event is the same, and a publication time
that was set stays. -/
structure Row.Follows (c r : Row) : Prop where
  subject : r.subject = c.subject
  envelope : r.envelope = c.envelope
  published : ∀ at_, c.publishedAt = some at_ → r.publishedAt = some at_

theorem Row.Follows.refl (r : Row) : r.Follows r :=
  ⟨rfl, rfl, fun _ h => h⟩

theorem Row.Follows.trans {a b c : Row} (h₁ : a.Follows b)
    (h₂ : b.Follows c) : a.Follows c :=
  ⟨h₂.subject.trans h₁.subject, h₂.envelope.trans h₁.envelope,
    fun at_ h => h₂.published at_ (h₁.published at_ h)⟩

theorem Stores.follows {store : SQLStore} {e : Event} {k : String}
    {c r : Row} (h : Stores store e k c) (hf : c.Follows r) :
    Stores store e k r := by
  obtain ⟨env, henv, hmarshal, hvalid⟩ := h.envelope
  exact ⟨h.id, h.subject.trans hf.subject.symm,
    env, henv, hf.envelope ▸ hmarshal, hvalid⟩

theorem leaseRow_follows (now lease : Time) (r : Row) :
    r.Follows (leaseRow now lease r) :=
  ⟨rfl, rfl, fun _ h => h⟩

/-- The update carries `published_at IS NULL`. -/
theorem markRow_follows {now : Time} {mark : Mark} {r : Row}
    (hpending : r.pending = true) : r.Follows (mark.row now r) := by
  cases mark with
  | published at_ =>
      refine ⟨rfl, rfl, ?_⟩
      intro at' h
      rw [Row.pending, h] at hpending
      cases hpending
  | failed message retryAt => exact ⟨rfl, rfl, fun _ h => h⟩

/-- What holds of a version of the row `k`, committed or not. -/
def Marked (P : String → Prop) (k : String) (r : Row) : Prop :=
  r.pending = false → P k

theorem leaseRow_marked {P : String → Prop} {k : String} {now lease : Time}
    {r : Row} (h : Marked P k r) : Marked P k (leaseRow now lease r) :=
  h

theorem markRow_marked {P : String → Prop} {k : String} {now : Time}
    {mark : Mark} {r : Row} (h : Marked P k r)
    (hmark : ∀ at_, mark = .published at_ → P k) :
    Marked P k (mark.row now r) := by
  cases mark with
  | published at_ => exact fun _ => hmark at_ rfl
  | failed message retryAt => exact h

/-- An event the table accounts for: its row is pending, or something was
published under its id. -/
def Accounted (store : SQLStore) (P : String → Prop) (row : Option Row)
    (e : Event) : Prop :=
  (∃ r, row = some r ∧ r.pending = true ∧ Stores store e e.id r) ∨ P e.id

structure TxOk (store : SQLStore) (db : Table) (tx : Tx String Row Event) :
    Prop where
  /-- A write is an update of a committed row or belongs to an event the
  transaction adds. -/
  writes : ∀ k r, tx.writes.lookup k = some r →
    (∃ c, db.lookup k = some c ∧ c.Follows r) ∨
      ∃ e ∈ tx.domain, Stores store e k r
  domain : ∀ e ∈ tx.domain, db.lookup e.id = none ∧
    ∃ r, tx.writes.lookup e.id = some r ∧ Stores store e e.id r

structure DbOk (store : SQLStore) (P : String → Prop) (db : Table) :
    Prop where
  wf : Db.Wf db
  marked : ∀ k, Db.Versions (Marked P k) k db
  stored : ∀ k r, db.lookup k = some r → ∃ e ∈ db.log, Stores store e k r
  valid : ∀ e ∈ db.log, ∃ env, e.envelope = some env ∧
    env.eventId = e.id ∧ env.eventType = e.subject
  log : ∀ e ∈ db.log, Accounted store P (db.lookup e.id) e
  txs : ∀ t tx, db.txs t = some tx → TxOk store db tx

section TableSteps

variable {store : SQLStore} {P Q : String → Prop} {db db' : Table} {t : Tid}

theorem DbOk.mono (h : DbOk store P db) (hPQ : ∀ k, P k → Q k) :
    DbOk store Q db :=
  ⟨h.wf, fun k => (h.marked k).imp fun _ hr hp => hPQ k (hr hp), h.stored,
    h.valid, fun e he => (h.log e he).imp_right (hPQ e.id), h.txs⟩

theorem dbOk_empty : DbOk store P Db.empty where
  wf := Db.wf_empty
  marked _ := ⟨fun _ h => (by cases h), fun _ _ _ h => (by cases h)⟩
  stored _ _ h := by cases h
  valid _ h := by cases h
  log _ h := by cases h
  txs _ _ h := by cases h

/-- What the others do leaves the rows a transaction has written alone. -/
theorem TxOk.kept {tx : Tx String Row Event} (h : TxOk store db tx)
    (howns : Db.Owns db.locks t tx) (hkept : Db.Kept t db db') :
    TxOk store db' tx := by
  have hrows : ∀ k r, tx.writes.lookup k = some r →
      db'.lookup k = db.lookup k := by
    intro k r hr
    exact hkept.rows k (howns.lookup hr)
  refine ⟨?_, ?_⟩
  · intro k r hr
    rw [hrows k r hr]
    exact h.writes k r hr
  · intro e he
    obtain ⟨hnone, r, hr, hst⟩ := h.domain e he
    rw [hrows e.id r hr]
    exact ⟨hnone, r, hr, hst⟩

/-- The transactions after a step of `t`: the others are kept, so only `t`
is left to look at. -/
theorem DbOk.txs_of_kept (h : DbOk store P db)
    (hkept : ∀ u, u ≠ t → Db.Kept u db db')
    (ht : ∀ tx, db'.txs t = some tx → TxOk store db' tx) :
    ∀ u tx, db'.txs u = some tx → TxOk store db' tx := by
  intro u tx hu
  by_cases hut : u = t
  · exact ht tx (hut ▸ hu)
  · have hk := hkept u hut
    rw [hk.tx] at hu
    exact (h.txs u tx hu).kept (h.wf u tx hu) hk

/-- Rows move on to later versions, and one that goes was published. -/
structure Later (P : String → Prop) (db db' : Table) : Prop where
  rows : ∀ k r', db'.lookup k = some r' →
    ∃ r, db.lookup k = some r ∧ r.Follows r' ∧ Marked P k r'
  gone : ∀ k r, db.lookup k = some r → db'.lookup k = none → P k

theorem Accounted.later {e : Event}
    (h : Accounted store P (db.lookup e.id) e) (hl : Later P db db') :
    Accounted store P (db'.lookup e.id) e := by
  rcases h with ⟨r, hr, hp, hst⟩ | hP
  · cases hr' : db'.lookup e.id with
    | none => exact .inr (hl.gone e.id r hr hr')
    | some r' =>
        obtain ⟨r₀, hr₀, hf, hm⟩ := hl.rows e.id r' hr'
        rw [hr, Option.some.injEq] at hr₀
        subst hr₀
        cases hp' : r'.pending with
        | true => exact .inl ⟨r', rfl, hp', hst.follows hf⟩
        | false => exact .inr (hm hp')
  · exact .inr hP

theorem DbOk.later (h : DbOk store P db) (hwf : Db.Wf db')
    (hmarked : ∀ k, Db.Versions (Marked P k) k db') (hl : Later P db db')
    (hlog : db'.log = db.log)
    (htxs : ∀ u tx, db'.txs u = some tx → TxOk store db' tx) :
    DbOk store P db' := by
  refine ⟨hwf, hmarked, ?_, ?_, ?_, htxs⟩
  · intro k r' hr'
    obtain ⟨r, hr, hf, -⟩ := hl.rows k r' hr'
    obtain ⟨e, he, hst⟩ := h.stored k r hr
    rw [hlog]
    exact ⟨e, he, hst.follows hf⟩
  · rw [hlog]
    exact h.valid
  · intro e he
    rw [hlog] at he
    exact (h.log e he).later hl

theorem DbOk.same_rows (h : DbOk store P db) (hwf : Db.Wf db')
    (hmarked : ∀ k, Db.Versions (Marked P k) k db')
    (hrows : ∀ k, db'.lookup k = db.lookup k) (hlog : db'.log = db.log)
    (htxs : ∀ u tx, db'.txs u = some tx → TxOk store db' tx) :
    DbOk store P db' := by
  refine h.later hwf hmarked ⟨?_, ?_⟩ hlog htxs
  · intro k r hr
    rw [hrows] at hr
    exact ⟨r, hr, .refl r, (h.marked k).row r hr⟩
  · intro k r hr hnone
    rw [hrows, hr] at hnone
    cases hnone

theorem DbOk.begun (h : DbOk store P db) (hb : db.begin t = some db') :
    DbOk store P db' := by
  have hstep : Db.StepOf t "" db db' := Db.stepOf_begin h.wf hb
  have hmarked := fun k => (h.marked k).begin hb
  obtain ⟨-, rfl⟩ := Db.begin_eq hb
  refine h.same_rows hstep.wf hmarked (fun _ => rfl) rfl
    (h.txs_of_kept hstep.kept ?_)
  intro tx htx
  rw [Db.setTx_txs_self, Option.some.injEq] at htx
  subst htx
  exact ⟨nofun, nofun⟩

theorem DbOk.rolledBack (h : DbOk store P db) (t : Tid) :
    DbOk store P (db.rollback t) := by
  have hstep : Db.StepOf t "" db (db.rollback t) := Db.stepOf_rollback h.wf
  refine h.same_rows hstep.wf (fun k => (h.marked k).rollback t)
    (fun _ => rfl) rfl (h.txs_of_kept hstep.kept ?_)
  intro tx htx
  rw [Db.rollback_txs_self] at htx
  cases htx

theorem DbOk.locked (h : DbOk store P db) {ids : List String}
    (hfree : ∀ k ∈ ids, db.locks k = none) :
    DbOk store P (db.lockAll t ids) := by
  obtain ⟨hwf, hkept⟩ := Db.lockAll_spec h.wf fun k hk => .inl (hfree k hk)
  refine h.same_rows hwf (fun k => (h.marked k).lockAll ids)
    (Db.lockAll_lookup ids db) (Db.lockAll_log ids db) ?_
  intro u tx hu
  rw [Db.lockAll_txs] at hu
  exact (h.txs u tx hu).kept (h.wf u tx hu) (hkept u)

/-- A transaction writes a later version of a row it sees. -/
theorem DbOk.rewritten (h : DbOk store P db) {tx : Tx String Row Event}
    {k : String} {r r' : Row} (htx : db.txs t = some tx)
    (hlock : db.lockable t k) (hview : db.view t k = some r)
    (hf : r.Follows r')
    (hm : ∀ k', Db.Versions (Marked P k') k' (db.put t tx k r')) :
    DbOk store P (db.put t tx k r') := by
  have hstep : Db.StepOf t k db (db.put t tx k r') :=
    Db.stepOf_put h.wf htx hlock
  have hok := h.txs t tx htx
  refine h.same_rows hstep.wf hm (fun _ => rfl) rfl
    (h.txs_of_kept hstep.kept ?_)
  intro tx' htx'
  rw [Db.put_txs_self, Option.some.injEq] at htx'
  subst htx'
  rw [Db.view_of_tx htx] at hview
  refine ⟨?_, ?_⟩
  · intro k' r₁ hr₁
    rw [Db.lookup_writes_cons] at hr₁
    split at hr₁
    · next hk =>
        cases hr₁
        subst hk
        -- the version it saw is its own write or the committed one
        rcases Option.or_eq_some_iff.mp hview with hw | ⟨-, hc⟩
        · rcases hok.writes k' r hw with ⟨c, hc, hcr⟩ | ⟨e, he, hst⟩
          · exact .inl ⟨c, hc, hcr.trans hf⟩
          · exact .inr ⟨e, he, hst.follows hf⟩
        · exact .inl ⟨r, hc, hf⟩
    · exact hok.writes k' r₁ hr₁
  · intro e he
    obtain ⟨hnone, r₁, hr₁, hst⟩ := hok.domain e he
    refine ⟨hnone, ?_⟩
    simp only [Db.lookup_writes_cons]
    split
    · next hk =>
        subst hk
        rw [hr₁, Option.some_or, Option.some.injEq] at hview
        subst hview
        exact ⟨r', rfl, hst.follows hf⟩
    · exact ⟨r₁, hr₁, hst⟩

theorem DbOk.updated (h : DbOk store P db) {k : String} {f : Row → Row}
    {n : Nat} (hu : db.updateWhere t k Row.pending f = some (db', n))
    (hf : ∀ r : Row, r.pending = true → r.Follows (f r))
    (hm : ∀ r, Marked P k r → Marked P k (f r)) : DbOk store P db' := by
  have hmarked : ∀ k', Db.Versions (Marked P k') k' db' := by
    intro k'
    refine (h.marked k').updateWhere hu ?_
    rintro rfl r - hr
    exact hm r hr
  obtain ⟨tx, htx, hlock, ⟨-, rfl, -⟩ | ⟨r, hview, hp, -, rfl⟩⟩ :=
    Db.updateWhere_eq hu
  · exact h
  · exact h.rewritten htx hlock hview (hf r hp) hmarked

theorem encodeEvent_stores {event : Event} {actor : String}
    {encoded : Bytes} (h : store.encodeEvent event actor = .ok encoded)
    (now : Time) :
    Stores store event event.id (addedRow event encoded actor now) := by
  unfold SQLStore.encodeEvent at h
  split at h
  · cases h
  · next env henv =>
      split at h
      · cases h
      · split at h
        · cases h
        · next hmatch =>
            rw [not_or, not_not, not_not] at hmatch
            split at h
            · next b hmarshal =>
                cases h
                exact ⟨rfl, rfl, env, henv, hmarshal, hmatch.1, hmatch.2⟩
            · cases h

theorem DbOk.added (h : DbOk store P db) {event : Event} {actor : String}
    {encoded : Bytes} {now : Time} {db₁ : Table}
    (henc : store.encodeEvent event actor = .ok encoded)
    (hins : db.insert t event.id (addedRow event encoded actor now) =
      some db₁) (hexec : db₁.exec t event = some db') :
    DbOk store P db' := by
  have hstep : Db.StepOf t event.id db db' :=
    (Db.stepOf_insert h.wf hins).trans
      (Db.stepOf_exec (Db.stepOf_insert h.wf hins).wf hexec)
  have hmarked : ∀ k, Db.Versions (Marked P k) k db' := by
    intro k
    refine ((h.marked k).insert hins ?_).exec hexec
    intro _ hp
    cases hp
  obtain ⟨tx, htx, hview, -, rfl⟩ := Db.insert_eq hins
  obtain ⟨tx₁, htx₁, rfl⟩ := Db.exec_eq hexec
  rw [Db.put_txs_self, Option.some.injEq] at htx₁
  subst htx₁
  rw [Db.view_of_tx htx, Option.or_eq_none_iff] at hview
  have hok := h.txs t tx htx
  have hst := encodeEvent_stores henc now
  refine h.same_rows hstep.wf hmarked (fun _ => rfl) rfl
    (h.txs_of_kept hstep.kept ?_)
  intro tx' htx'
  rw [Db.setTx_txs_self, Option.some.injEq] at htx'
  subst htx'
  refine ⟨?_, ?_⟩
  · intro k r hr
    rw [Db.lookup_writes_cons] at hr
    split at hr
    · next hk =>
        cases hr
        subst hk
        exact .inr ⟨event, by simp, hst⟩
    · rcases hok.writes k r hr with hc | ⟨e, he, hste⟩
      · exact .inl hc
      · exact .inr ⟨e, List.mem_append_left _ he, hste⟩
  · intro e he
    rcases List.mem_append.mp he with he | he
    · obtain ⟨hnone, r, hr, hste⟩ := hok.domain e he
      have hne : e.id ≠ event.id := by
        intro heq
        rw [heq, hview.1] at hr
        cases hr
      refine ⟨hnone, r, ?_, hste⟩
      rw [Db.lookup_writes_cons, if_neg hne]
      exact hr
    · rw [List.mem_singleton] at he
      subst he
      refine ⟨hview.2, _, ?_, hst⟩
      rw [Db.lookup_writes_cons, if_pos rfl]

/-- Nothing is committed over a row of another event. -/
theorem TxOk.view_later {tx : Tx String Row Event} (h : TxOk store db tx)
    (htx : db.txs t = some tx) {k : String} {c : Row}
    (hc : db.lookup k = some c) :
    ∃ r, db.view t k = some r ∧ c.Follows r := by
  rw [Db.view_of_tx htx]
  cases hw : tx.writes.lookup k with
  | none => exact ⟨c, hc, .refl c⟩
  | some r =>
      refine ⟨r, rfl, ?_⟩
      rcases h.writes k r hw with ⟨c', hc', hf⟩ | ⟨e, he, hst⟩
      · rw [hc, Option.some.injEq] at hc'
        exact hc' ▸ hf
      · have hnone := (h.domain e he).1
        rw [hst.id, hc] at hnone
        cases hnone

theorem DbOk.committed (h : DbOk store P db)
    (hc : db.commit t = some db') : DbOk store P db' := by
  have hstep : Db.StepOf t "" db db' := Db.stepOf_commit h.wf hc
  obtain ⟨tx, htx, hrows, hlog, hlocks, htxs⟩ := Db.commit_eq hc
  have hok := h.txs t tx htx
  refine ⟨hstep.wf, fun k => (h.marked k).commit hc, ?_, ?_, ?_, ?_⟩
  · intro k r hr
    rw [hrows, Db.view_of_tx htx] at hr
    rw [hlog]
    have hcommitted : ∀ c, db.lookup k = some c → c.Follows r →
        ∃ e ∈ db.log ++ tx.domain, Stores store e k r := by
      intro c hc hf
      obtain ⟨e, he, hst⟩ := h.stored k c hc
      exact ⟨e, List.mem_append_left _ he, hst.follows hf⟩
    rcases Option.or_eq_some_iff.mp hr with hw | ⟨-, hc⟩
    · rcases hok.writes k r hw with ⟨c, hc, hf⟩ | ⟨e, he, hst⟩
      · exact hcommitted c hc hf
      · exact ⟨e, List.mem_append_right _ he, hst⟩
    · exact hcommitted r hc (.refl r)
  · intro e he
    rw [hlog] at he
    rcases List.mem_append.mp he with he | he
    · exact h.valid e he
    · obtain ⟨-, r, -, hst⟩ := hok.domain e he
      obtain ⟨env, henv, -, hvalid⟩ := hst.envelope
      exact ⟨env, henv, hvalid⟩
  · intro e he
    rw [hlog] at he
    have hacc : ∀ r, db.view t e.id = some r → Stores store e e.id r →
        Accounted store P (db'.lookup e.id) e := by
      intro r hr hst
      cases hp : r.pending with
      | true => exact .inl ⟨r, (hrows e.id).trans hr, hp, hst⟩
      | false => exact .inr ((h.marked e.id).view hr hp)
    rcases List.mem_append.mp he with he | he
    · rcases h.log e he with ⟨c, hc, -, hst⟩ | hP
      · obtain ⟨r, hr, hf⟩ := hok.view_later htx hc
        exact hacc r hr (hst.follows hf)
      · exact .inr hP
    · obtain ⟨-, r, hr, hst⟩ := hok.domain e he
      refine hacc r ?_ hst
      rw [Db.view_of_tx htx, hr]
      rfl
  · refine h.txs_of_kept hstep.kept ?_
    intro tx' htx'
    rw [htxs, Db.setTx_txs_self] at htx'
    cases htx'

/-- A single statement leaves the open transactions what they had. -/
theorem DbOk.statement (h : DbOk store P db)
    {k : String} {p : Row → Bool} {edit : Row → AList fun _ : String => Row}
    {n : Nat} (hs : db.statementNow k p edit = some (db', n))
    (hkept : ∀ u, Db.Kept u db db')
    (hmarked : ∀ k, Db.Versions (Marked P k) k db') (hl : Later P db db') :
    DbOk store P db' := by
  obtain ⟨hwf, hlog⟩ := h.wf.statementNow hs
  refine h.later hwf hmarked hl hlog ?_
  intro u tx hu
  rw [(hkept u).tx] at hu
  exact (h.txs u tx hu).kept (h.wf u tx hu) (hkept u)

theorem Later.refl (h : DbOk store P db) : Later P db db := by
  refine ⟨fun k r hr => ⟨r, hr, .refl r, (h.marked k).row r hr⟩, ?_⟩
  intro k r hr hnone
  rw [hr] at hnone
  cases hnone

theorem DbOk.later_updateNow (h : DbOk store P db) {k : String}
    {f : Row → Row} {n : Nat}
    (hu : db.updateNow k Row.pending f = some (db', n))
    (hf : ∀ r : Row, r.pending = true → r.Follows (f r))
    (hm : ∀ r, Marked P k r → Marked P k (f r)) : Later P db db' := by
  obtain ⟨-, ⟨-, rfl, -⟩ | ⟨r, hr, hp, -, rfl⟩⟩ := Db.statementNow_eq hu
  · exact .refl h
  · refine ⟨?_, ?_⟩
    · intro k' r' hr'
      rw [Db.lookup_rows_insert] at hr'
      split at hr'
      · next hk =>
          cases hr'
          subst hk
          exact ⟨r, hr, hf r hp, hm r ((h.marked k').row r hr)⟩
      · exact ⟨r', hr', .refl r', (h.marked k').row r' hr'⟩
    · intro k' r' hr' hnone
      rw [Db.lookup_rows_insert] at hnone
      split at hnone
      · cases hnone
      · rw [hr'] at hnone
        cases hnone

theorem publishedBefore_not_pending {before : Time} {r : Row}
    (h : publishedBefore before r = true) : r.pending = false := by
  obtain ⟨at_, hat, -⟩ := (Option.any_eq_true ..).mp h
  rw [Row.pending, hat]
  rfl

theorem DbOk.later_delete (h : DbOk store P db) {k : String} {before : Time}
    {n : Nat} (hd : db.deleteNow k (publishedBefore before) = some (db', n)) :
    Later P db db' := by
  obtain ⟨-, ⟨-, rfl, -⟩ | ⟨r, hr, hp, -, rfl⟩⟩ := Db.statementNow_eq hd
  · exact .refl h
  · refine ⟨?_, ?_⟩
    · intro k' r' hr'
      rw [Db.lookup_rows_erase] at hr'
      split at hr'
      · cases hr'
      · exact ⟨r', hr', .refl r', (h.marked k').row r' hr'⟩
    · intro k' r' hr' hnone
      rw [Db.lookup_rows_erase] at hnone
      split at hnone
      · next hk =>
          subst hk
          exact (h.marked k').row r hr (publishedBefore_not_pending hp)
      · rw [hr'] at hnone
        cases hnone

end TableSteps

/-! ## The dispatchers -/

/-- An event of this id was added and published. -/
def PublishedUnder (log : List Event) (publications : List Publication)
    (k : String) : Prop :=
  ∃ e ∈ log, e.id = k ∧ ∃ env, e.envelope = some env ∧
    ⟨e.subject, env, none⟩ ∈ publications

def Sys.Published (s : Sys) : String → Prop :=
  PublishedUnder s.db.log s.publications

theorem PublishedUnder.mono {log log' : List Event}
    {pubs pubs' : List Publication} (hlog : ∀ e ∈ log, e ∈ log')
    (hpubs : ∀ p ∈ pubs, p ∈ pubs') (k : String)
    (h : PublishedUnder log pubs k) : PublishedUnder log' pubs' k := by
  obtain ⟨e, he, hid, env, henv, hp⟩ := h
  exact ⟨e, hlog e he, hid, env, henv, hpubs _ hp⟩

/-- What a dispatcher holds in memory was added, and it marks an event
published only when something was published under its id. -/
def PhaseOk (store : SQLStore) (log : List Event) (P : String → Prop) :
    Phase → Prop
  | .idle | .opened | .selecting _ => True
  | .leasing _ rows values =>
      (∀ p ∈ rows, ∃ e ∈ log, Stores store e p.1 p.2) ∧
        ∀ e ∈ values, e ∈ log
  | .batch events => ∀ e ∈ events, e ∈ log
  | .sent event err rest => (err = none → P event.id) ∧ ∀ e ∈ rest, e ∈ log
  | .marking event _ mark rest | .markOpen event _ mark rest =>
      (∀ at_, mark = .published at_ → P event.id) ∧ ∀ e ∈ rest, e ∈ log
  | .marked _ _ _ rest => ∀ e ∈ rest, e ∈ log

theorem PhaseOk.mono {store : SQLStore} {log log' : List Event}
    {P Q : String → Prop} {phase : Phase} (h : PhaseOk store log P phase)
    (hlog : ∀ e ∈ log, e ∈ log') (hPQ : ∀ k, P k → Q k) :
    PhaseOk store log' Q phase := by
  cases phase with
  | idle => trivial
  | opened => trivial
  | selecting now => trivial
  | leasing now rows values =>
      refine ⟨?_, fun e he => hlog e (h.2 e he)⟩
      intro p hp
      obtain ⟨e, he, hst⟩ := h.1 p hp
      exact ⟨e, hlog e he, hst⟩
  | batch events => exact fun e he => hlog e (h e he)
  | sent event err rest =>
      exact ⟨fun herr => hPQ _ (h.1 herr), fun e he => hlog e (h.2 e he)⟩
  | marking | markOpen =>
      exact ⟨fun at_ hm => hPQ _ (h.1 at_ hm), fun e he => hlog e (h.2 e he)⟩
  | marked event err n rest => exact fun e he => hlog e (h e he)

/-- `proto.Unmarshal` inverts `proto.Marshal`. -/
def SQLStore.RoundTrips (store : SQLStore) : Prop :=
  ∀ env b, store.marshal env = .ok b → store.unmarshal b = .ok env

/-- What `Claim` decodes from a row is the event the row was written for. -/
theorem Stores.decoded {store : SQLStore} (hcodec : store.RoundTrips)
    {e : Event} {k : String} {r : Row} {envelope : EventBus.EventEnvelope}
    (h : Stores store e k r) (hdec : store.unmarshal r.envelope = .ok envelope) :
    e = ⟨k, r.subject, some envelope⟩ := by
  obtain ⟨env, henv, hmarshal, -⟩ := h.envelope
  rw [hcodec env _ hmarshal] at hdec
  cases hdec
  rw [← h.id, ← h.subject, ← henv]

structure Inv (setup : Setup) (s : Sys) : Prop where
  db : DbOk setup.store s.Published s.db
  phases : ∀ d, PhaseOk setup.store s.db.log s.Published (s.phase d)
  publications : ∀ p ∈ s.publications, ∃ e ∈ s.db.log,
    e.subject = p.subject ∧ e.envelope = some p.envelope

theorem inv_init : Inv setup {} where
  db := dbOk_empty
  phases := fun _ => trivial
  publications := nofun

/-- The invariant of one dispatcher, over the table before the step. -/
theorem phaseOk_step (hcodec : setup.store.RoundTrips) {s : Sys} {a : Action}
    {d : Nat} (hinv : Inv setup s) {phase phase' : Phase} {db : Table}
    {pubs : List Publication}
    (h : WorkerStep setup s a d phase phase' db pubs)
    (hok : PhaseOk setup.store s.db.log s.Published phase) :
    PhaseOk setup.store s.db.log (PublishedUnder s.db.log pubs) phase' := by
  cases h with
  | stopped => trivial
  | aborted => trivial
  | opened h => trivial
  | clock => trivial
  | selected h =>
      refine ⟨?_, nofun⟩
      intro p hp
      exact hinv.db.stored p.1 p.2 (found_lookup hp).2
  | @leased now id row rows values envelope db n hdec h =>
      refine ⟨fun p hp => hok.1 p (List.mem_cons_of_mem _ hp), ?_⟩
      intro e he
      rcases List.mem_append.mp he with he | he
      · exact hok.2 e he
      · obtain ⟨e', he', hst⟩ := hok.1 (id, row) (List.mem_cons_self ..)
        rw [List.mem_singleton.mp he, ← hst.decoded hcodec hdec]
        exact he'
  | claimed h => exact hok.2
  | claimLost h => trivial
  | @sent event rest err envelope henv =>
      refine ⟨?_, fun e he => hok e (List.mem_cons_of_mem _ he)⟩
      intro herr
      subst herr
      exact ⟨event, hok event (List.mem_cons_self ..), rfl, envelope, henv,
        List.mem_append_right _ (List.mem_singleton_self _)⟩
  | stamped hmark => exact ⟨fun at_ hm => hok.1 (hmark at_ hm), hok.2⟩
  | markSkipped => exact hok.2
  | markedNow h hfailed => exact hok.2
  | markOpen h => exact hok
  | marked h hfailed => exact hok.2
  | markCommitted h => exact hok
  | markAborted hrest =>
      cases phase with
      | marking => cases hrest; exact hok.2
      | markOpen => cases hrest; exact hok.2
      | marked => cases hrest; exact hok
      | _ => cases hrest

theorem WorkerStep.publications {s : Sys} {a : Action} {d : Nat}
    {phase phase' : Phase} {db : Table} {pubs : List Publication}
    (h : WorkerStep setup s a d phase phase' db pubs) :
    pubs = s.publications ∨
      ∃ event rest err envelope, phase = .batch (event :: rest) ∧
        event.envelope = some envelope ∧
        pubs = s.publications ++ [⟨event.subject, envelope, err⟩] := by
  cases h with
  | sent henv => exact .inr ⟨_, _, _, _, rfl, henv, rfl⟩
  | _ => exact .inl rfl

/-! ## Steps and runs -/

theorem marking_published {s : Sys} (hinv : Inv setup s) {d : Nat}
    {event : Event} {err : Option GoErr} {mark : Mark} {rest : List Event}
    (hphase : s.phase d = .marking event err mark rest ∨
      s.phase d = .markOpen event err mark rest) :
    ∀ at_, mark = .published at_ → s.Published event.id := by
  have hok := hinv.phases d
  rcases hphase with hphase | hphase <;> rw [hphase] at hok <;> exact hok.1

theorem dbOk_step {s : Sys} {db' : Table} (hinv : Inv setup s)
    (h : DbStep setup s db') : DbOk setup.store s.Published db' := by
  have hdb := hinv.db
  cases h with
  | same => exact hdb
  | began h => exact hdb.begun h
  | added henc hins hexec => exact hdb.added henc hins hexec
  | committed h => exact hdb.committed h
  | rolledBack t => exact hdb.rolledBack t
  | locked d hfree => exact hdb.locked hfree
  | leased h =>
      exact hdb.updated h (fun r _ => leaseRow_follows _ _ r)
        fun r => leaseRow_marked
  | marked hphase h =>
      exact hdb.updated h (fun r => markRow_follows) fun r hr =>
        markRow_marked hr (marking_published hinv (.inr hphase))
  | markedNow hphase h =>
      refine hdb.statement h (fun u => Db.kept_updateNow h) ?_
        (hdb.later_updateNow h (fun r => markRow_follows) fun r hr =>
          markRow_marked hr (marking_published hinv (.inl hphase)))
      intro k
      refine (hdb.marked k).updateNow h ?_
      rintro rfl r - hr
      exact markRow_marked hr (marking_published hinv (.inl hphase))
  | deleted h =>
      exact hdb.statement h (fun u => Db.kept_deleteNow h)
        (fun k => (hdb.marked k).deleteNow h) (hdb.later_delete h)

/-- Committed rows change in three ways only. -/
theorem DbStep.rows_cases {s : Sys} {db' : Table} (h : DbStep setup s db') :
    (db'.rows = s.db.rows ∧ db'.log = s.db.log) ∨
      (∃ t, s.db.commit t = some db') ∨
      (∃ d event err mark rest n,
        s.phase d = .marking event err mark rest ∧
        s.db.updateNow event.id Row.pending (mark.row s.clock) =
          some (db', n)) ∨
      ∃ id before n,
        s.db.deleteNow id (publishedBefore before) = some (db', n) := by
  have hupdate : ∀ {t : Tid} {k : String} {f : Row → Row} {n : Nat},
      s.db.updateWhere t k Row.pending f = some (db', n) →
      db'.rows = s.db.rows ∧ db'.log = s.db.log := by
    intro t k f n hu
    obtain ⟨tx, -, -, ⟨-, rfl, -⟩ | ⟨r, -, -, -, rfl⟩⟩ :=
      Db.updateWhere_eq hu
    · exact ⟨rfl, rfl⟩
    · exact ⟨rfl, rfl⟩
  cases h with
  | same => exact .inl ⟨rfl, rfl⟩
  | began h =>
      obtain ⟨-, rfl⟩ := Db.begin_eq h
      exact .inl ⟨rfl, rfl⟩
  | added henc hins hexec =>
      obtain ⟨tx, -, -, -, rfl⟩ := Db.insert_eq hins
      obtain ⟨tx', -, rfl⟩ := Db.exec_eq hexec
      exact .inl ⟨rfl, rfl⟩
  | committed h => exact .inr (.inl ⟨_, h⟩)
  | rolledBack t => exact .inl ⟨rfl, rfl⟩
  | locked d hfree => exact .inl ⟨Db.lockAll_rows .., Db.lockAll_log ..⟩
  | leased h => exact .inl (hupdate h)
  | marked hphase h => exact .inl (hupdate h)
  | markedNow hphase h =>
      exact .inr (.inr (.inl ⟨_, _, _, _, _, _, hphase, h⟩))
  | deleted h => exact .inr (.inr (.inr ⟨_, _, _, h⟩))

theorem DbStep.log_mono {s : Sys} {db' : Table} (hwf : Db.Wf s.db)
    (h : DbStep setup s db') : ∀ e ∈ s.db.log, e ∈ db'.log := by
  intro e he
  rcases h.rows_cases with ⟨-, hlog⟩ | ⟨t, hc⟩ |
    ⟨d, event, err, mark, rest, n, -, hu⟩ | ⟨id, before, n, hd⟩
  · rw [hlog]
    exact he
  · obtain ⟨tx, -, -, hlog, -, -⟩ := Db.commit_eq hc
    rw [hlog]
    exact List.mem_append_left _ he
  · rw [(hwf.statementNow hu).2]
    exact he
  · rw [(hwf.statementNow hd).2]
    exact he

theorem step_publications {s t : Sys} {a : Action} (hinv : Inv setup s)
    (h : setup.step s a = some t) :
    (∀ p ∈ s.publications, p ∈ t.publications) ∧
      ∀ p ∈ t.publications, ∃ e ∈ s.db.log,
        e.subject = p.subject ∧ e.envelope = some p.envelope := by
  rcases step_cases h with hout | ⟨d, hmove⟩
  · rw [hout.publications]
    exact ⟨fun p hp => hp, hinv.publications⟩
  · rcases hmove.step.publications with
      hpubs | ⟨event, rest, err, env, hph, henv, hpubs⟩
    · rw [hpubs]
      exact ⟨fun p hp => hp, hinv.publications⟩
    · rw [hpubs]
      refine ⟨fun p hp => List.mem_append_left _ hp, ?_⟩
      intro p hp
      rcases List.mem_append.mp hp with hp | hp
      · exact hinv.publications p hp
      · have hbatch := hinv.phases d
        rw [hph] at hbatch
        rw [List.mem_singleton.mp hp]
        exact ⟨event, hbatch event (List.mem_cons_self ..), rfl, henv⟩

theorem inv_step (hcodec : setup.store.RoundTrips) {s t : Sys} {a : Action}
    (hinv : Inv setup s) (h : setup.step s a = some t) : Inv setup t := by
  have hdb := step_db h
  have hlog := hdb.log_mono hinv.db.wf
  obtain ⟨hgrow, hpubs⟩ := step_publications hinv h
  have hmono : ∀ k, s.Published k → t.Published k :=
    PublishedUnder.mono hlog hgrow
  refine ⟨(dbOk_step hinv hdb).mono hmono, ?_, ?_⟩
  · intro d
    have hstays : t.workers d = s.workers d →
        PhaseOk setup.store t.db.log t.Published (t.phase d) := by
      intro heq
      rw [Sys.phase, heq]
      exact (hinv.phases d).mono hlog hmono
    rcases step_cases h with hout | ⟨d', hmove⟩
    · exact hstays (by rw [hout.workers])
    · by_cases hd : d = d'
      · subst hd
        exact (phaseOk_step hcodec hinv hmove.step (hinv.phases d)).mono hlog
          (PublishedUnder.mono hlog fun p hp => hp)
      · exact hstays (hmove.others d hd)
  · intro p hp
    obtain ⟨e, he, hmatch⟩ := hpubs p hp
    exact ⟨e, hlog e he, hmatch⟩

theorem inv_run (hcodec : setup.store.RoundTrips) {as : List Action}
    {s : Sys} (hrun : Lts.run setup.step {} as = some s) : Inv setup s :=
  Lts.run_inv_of (fun _ _ _ => inv_step hcodec) inv_init hrun

/-- A row that is still there after a step is a later version of what it
was. -/
theorem row_step {s t : Sys} {a : Action} (hinv : Inv setup s)
    (h : setup.step s a = some t) {k : String} {c : Row}
    (hc : s.db.lookup k = some c) :
    t.db.lookup k = none ∨ ∃ r, t.db.lookup k = some r ∧ c.Follows r := by
  have hlater : ∀ db', Later s.Published s.db db' → db'.lookup k = none ∨
      ∃ r, db'.lookup k = some r ∧ c.Follows r := by
    intro db' hl
    cases hr : db'.lookup k with
    | none => exact .inl rfl
    | some r =>
        obtain ⟨c', hc', hf, -⟩ := hl.rows k r hr
        rw [hc, Option.some.injEq] at hc'
        exact .inr ⟨r, rfl, hc' ▸ hf⟩
  rcases (step_db h).rows_cases with ⟨hrows, -⟩ | ⟨u, hcommit⟩ |
    ⟨d, event, err, mark, rest, n, hphase, hu⟩ | ⟨id, before, n, hd⟩
  · refine .inr ⟨c, ?_, .refl c⟩
    rw [Db.lookup, hrows]
    exact hc
  · obtain ⟨tx, htx, hrows, -⟩ := Db.commit_eq hcommit
    obtain ⟨r, hr, hf⟩ := (hinv.db.txs _ tx htx).view_later htx hc
    exact .inr ⟨r, (hrows k).trans hr, hf⟩
  · exact hlater _ (hinv.db.later_updateNow hu (fun r => markRow_follows)
      fun r hr => markRow_marked hr (marking_published hinv (.inl hphase)))
  · exact hlater _ (hinv.db.later_delete hd)

/-- At some moment of the run there is no row with the id. -/
def GoneDuring (setup : Setup) (s : Sys) (as : List Action) (k : String) :
    Prop :=
  ∃ bs cs m, as = bs ++ cs ∧ Lts.run setup.step s bs = some m ∧
    m.db.lookup k = none

theorem GoneDuring.cons {s m : Sys} {a : Action} {as : List Action}
    {k : String} (hstep : setup.step s a = some m)
    (h : GoneDuring setup m as k) : GoneDuring setup s (a :: as) k := by
  obtain ⟨bs, cs, n, rfl, hrun, hnone⟩ := h
  exact ⟨a :: bs, cs, n, rfl, Lts.run_cons.mpr ⟨m, hstep, hrun⟩, hnone⟩

/-- As long as the row is there its publication time stays. -/
theorem published_run (hcodec : setup.store.RoundTrips) {as : List Action}
    {s t : Sys} (hinv : Inv setup s)
    (hrun : Lts.run setup.step s as = some t) {k : String} {r : Row}
    {at_ : Time} (hr : s.db.lookup k = some r)
    (hat : r.publishedAt = some at_) :
    (∃ r', t.db.lookup k = some r' ∧ r'.publishedAt = some at_) ∨
      GoneDuring setup s as k := by
  induction as generalizing s r with
  | nil =>
      rw [Lts.run_nil, Option.some.injEq] at hrun
      subst hrun
      exact .inl ⟨r, hr, hat⟩
  | cons a as ih =>
      obtain ⟨m, hm, hrest⟩ := Lts.run_cons.mp hrun
      rcases row_step hinv hm hr with hnone | ⟨r', hr', hf⟩
      · exact .inr ⟨[a], as, m, rfl, Lts.run_cons.mpr ⟨m, hm, rfl⟩, hnone⟩
      · rcases ih (inv_step hcodec hinv hm) hrest hr'
          (hf.published at_ hat) with hstill | hgone
        · exact .inl hstill
        · exact .inr (hgone.cons hm)

/-- An event is published under its id before its row stops being pending,
the publication time of a row is written once, and only what was added is
published. -/
theorem committed_events_delivered (hcodec : setup.store.RoundTrips)
    {as : List Action} {s : Sys}
    (hrun : Lts.run setup.step {} as = some s) :
    (∀ e ∈ s.db.log,
      (∃ r, s.db.lookup e.id = some r ∧ r.publishedAt = none ∧
        Stores setup.store e e.id r) ∨
      ∃ e' ∈ s.db.log, e'.id = e.id ∧ ∃ env, e'.envelope = some env ∧
        ⟨e'.subject, env, none⟩ ∈ s.publications) ∧
    (∀ e ∈ s.db.log, (∀ e' ∈ s.db.log, e'.id = e.id → e' = e) →
      (∃ r, s.db.lookup e.id = some r ∧ r.publishedAt = none ∧
        Stores setup.store e e.id r) ∨
      ∃ env, e.envelope = some env ∧
        ⟨e.subject, env, none⟩ ∈ s.publications) ∧
    (∀ bs t, Lts.run setup.step s bs = some t → ∀ k r at_,
      s.db.lookup k = some r → r.publishedAt = some at_ →
      (∃ r', t.db.lookup k = some r' ∧ r'.publishedAt = some at_) ∨
        GoneDuring setup s bs k) ∧
    ∀ p ∈ s.publications, ∃ e ∈ s.db.log, p.subject = e.subject ∧
      e.envelope = some p.envelope ∧ p.envelope.eventId = e.id ∧
      p.envelope.eventType = p.subject := by
  have hinv := inv_run hcodec hrun
  have haccounted : ∀ e ∈ s.db.log,
      (∃ r, s.db.lookup e.id = some r ∧ r.publishedAt = none ∧
        Stores setup.store e e.id r) ∨ s.Published e.id := by
    intro e he
    rcases hinv.db.log e he with ⟨r, hr, hp, hst⟩ | hpub
    · exact .inl ⟨r, hr, Option.isNone_iff_eq_none.mp hp, hst⟩
    · exact .inr hpub
  refine ⟨haccounted, ?_, ?_, ?_⟩
  · intro e he honly
    rcases haccounted e he with hrow | ⟨e', he', hid, hpub⟩
    · exact .inl hrow
    · rw [honly e' he' hid] at hpub
      exact .inr hpub
  · intro bs t hbs k r at_ hr hat
    exact published_run hcodec hinv hbs hr hat
  · intro p hp
    obtain ⟨e, he, hsubject, henv⟩ := hinv.publications p hp
    obtain ⟨env, henv', hid, htype⟩ := hinv.db.valid e he
    rw [henv, Option.some.injEq] at henv'
    subst henv'
    exact ⟨e, he, hsubject.symm, henv, hid, htype.trans hsubject⟩

/-! ## An id that is used again -/

def addAll (n : Nat) (event : Event) : List Action :=
  [.begin n, .addTx n event "checkout", .commit n]

def claimOne (d : Nat) (id : String) : List Action :=
  [.claimBegin d, .claimClock d, .claimSelect d [id], .claimLease d,
    .claimCommit d .done]

def publishOne (d : Nat) (err : Option GoErr) : List Action :=
  [.publish d err, .stamp d, .mark d none]

def orderEnvelope (order : String) : EventBus.EventEnvelope :=
  { eventId := "order-event", eventType := "platform.order.placed.v1"
    aggregateId := order, aggregateType := "order", tenantId := "tenant-1"
    applicationId := "", schemaVersion := 1, occurredAt := 0
    context := none, payload := [] }

def orderEvent (order : String) : Event :=
  { id := "order-event", subject := "platform.order.placed.v1"
    envelope := some (orderEnvelope order) }

def orderStore : SQLStore where
  table := "outbox_events"
  marshal env :=
    if env = orderEnvelope "order-1" ∨ env = orderEnvelope "order-2" then
      .ok env.wire
    else .error (.new (bytes "string field contains invalid UTF-8"))
  unmarshal b :=
    if b = (orderEnvelope "order-1").wire then .ok (orderEnvelope "order-1")
    else if b = (orderEnvelope "order-2").wire then
      .ok (orderEnvelope "order-2")
    else .error (.new (bytes "cannot parse invalid wire-format data"))
  isPrint c := c.toNat ≥ 32

def orderSetup : Setup := ⟨orderStore, fun _ => Config.new {}⟩

theorem orderStore_roundTrips : orderStore.RoundTrips := by
  intro env b h
  simp only [orderStore] at h
  split at h
  · next hknown =>
      cases h
      rcases hknown with rfl | rfl
      · rfl
      · decide
  · cases h

/-- The first dispatcher is late: its lease has lapsed, the second one has
published and marked the event, retention has removed the row, and the id has
been used again. Its mark then hits the new row. -/
def reusedId : List Action :=
  addAll 0 (orderEvent "order-1") ++ claimOne 1 "order-event" ++
    [.clock (31 * second)] ++ claimOne 2 "order-event" ++
    publishOne 2 none ++ [.delete "order-event" (32 * second)] ++
    addAll 0 (orderEvent "order-2") ++ publishOne 1 none

theorem reused_id_swallows_event :
    ¬ ∀ (setup : Setup) (as : List Action) (s : Sys) (e : Event),
      setup.store.RoundTrips → Lts.run setup.step {} as = some s →
      e ∈ s.db.log →
      (∃ r, s.db.lookup e.id = some r ∧ r.publishedAt = none) ∨
        ∃ p ∈ s.publications, p.err = none ∧ p.subject = e.subject ∧
          e.envelope = some p.envelope := by
  intro hall
  have hend : (Lts.run orderSetup.step {} reusedId).map (fun s =>
      (s.db.log, (s.db.lookup "order-event").map Row.publishedAt,
        s.publications.map Publication.envelope)) =
      some ([orderEvent "order-1", orderEvent "order-2"],
        some (some (31 * second)),
        [orderEnvelope "order-1", orderEnvelope "order-1"]) := by decide
  obtain ⟨s, hrun, hs⟩ := Option.map_eq_some_iff.mp hend
  simp only [Prod.mk.injEq] at hs
  obtain ⟨hlog, hrow, hpubs⟩ := hs
  rcases hall orderSetup reusedId s (orderEvent "order-2")
    orderStore_roundTrips hrun (by rw [hlog]; simp) with
    ⟨r, hr, hnone⟩ | ⟨p, hp, -, -, henv⟩
  · rw [show (orderEvent "order-2").id = "order-event" from rfl] at hr
    rw [hr, Option.map_some, hnone] at hrow
    cases hrow
  · have hmem := List.mem_map_of_mem (f := Publication.envelope) hp
    rw [hpubs, ← Option.some.inj henv] at hmem
    revert hmem
    decide

/-- The dispatcher stops between publishing and marking; the event stays
pending, is claimed again and published a second time. -/
theorem committed_events_delivered_crash :
    ∃ s, Lts.run orderSetup.step {} (addAll 0 (orderEvent "order-1") ++
        claimOne 1 "order-event" ++ [.publish 1 none, .crash 1,
          .clock (30 * second)] ++ claimOne 2 "order-event" ++
        publishOne 2 none) = some s ∧
      orderEvent "order-1" ∈ s.db.log ∧
      ∃ env, (orderEvent "order-1").envelope = some env ∧
        ⟨"platform.order.placed.v1", env, none⟩ ∈ s.publications := by
  have hend : (Lts.run orderSetup.step {} (addAll 0 (orderEvent "order-1") ++
      claimOne 1 "order-event" ++ [.publish 1 none, .crash 1,
        .clock (30 * second)] ++ claimOne 2 "order-event" ++
      publishOne 2 none)).map (fun s =>
        (s.db.log, (s.db.lookup "order-event").map Row.publishedAt)) =
      some ([orderEvent "order-1"],
        some (some (30 * second))) := by decide
  obtain ⟨s, hrun, hs⟩ := Option.map_eq_some_iff.mp hend
  simp only [Prod.mk.injEq] at hs
  obtain ⟨hlog, hrow⟩ := hs
  refine ⟨s, hrun, by rw [hlog]; simp, ?_⟩
  obtain ⟨-, honly, -, -⟩ :=
    committed_events_delivered orderStore_roundTrips hrun
  rcases honly (orderEvent "order-1") (by rw [hlog]; simp)
    (by rw [hlog]; simp) with ⟨r, hr, hnone, -⟩ | hpub
  · rw [show (orderEvent "order-1").id = "order-event" from rfl] at hr
    rw [hr, Option.map_some, hnone] at hrow
    cases hrow
  · exact hpub

end PlatformGo.Outbox

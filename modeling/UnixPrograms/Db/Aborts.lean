import UnixPrograms.Db.Sequential

/-!
# Calls that end the process

A check that fails ends the process; the files stay as they are, and the database is opened again.
Nothing is lost by this, except by a `dbStore` that replaces data by data of another length: it has
already deleted the old record when the new one is checked.
-/

namespace UnixPrograms.Db

open Function List Prog World

def reopenFetch (key : CString) : DbProg (Val × DB) := do
  let db ← dbOpen false
  library (.fetch key) db

/-- What `dbFetch` gives when the process has ended and the database has been opened again. -/
def Sees (w : World Unit DbFile) (key : CString) (out : Except DbError Val) : Prop :=
  ∃ fuel r w', (reopenFetch key).exec (perform ()) fuel (w.exit ()) = some (r, w') ∧
    r.map Prod.fst = out

variable {key : CString} {es : List Rec} {e : DbError}

lemma Sees.unique {w : World Unit DbFile} {out out' : Except DbError Val} (h : Sees w key out)
    (h' : Sees w key out') : out = out' := by
  obtain ⟨n, r, w₁, hrun, rfl⟩ := h
  obtain ⟨m, r', w₂, hrun', rfl⟩ := h'
  cases exec_unique hrun hrun'
  rfl

/-- The states in which a process has the database open and is between two calls; it may have been
opened again after a process that has ended by itself or in a call. -/
inductive Reached : DB → World Unit DbFile → Prop
  | created {fuel : ℕ} {db : DB} {w : World Unit DbFile}
      (hopen : (dbOpen true).exec (perform ()) fuel newFiles = some (.ok db, w)) :
      Reached db w
  | called {fuel : ℕ} {db db' : DB} {w w' : World Unit DbFile} {o : Op} {v : Val} (h : Reached db w)
      (hcall : (library o db).exec (perform ()) fuel w = some (.ok (v, db'), w')) :
      Reached db' w'
  | closed {fuel : ℕ} {db db' : DB} {w w' : World Unit DbFile} (h : Reached db w)
      (hopen : (dbOpen false).exec (perform ()) fuel (w.exit ()) = some (.ok db', w')) :
      Reached db' w'
  | aborted {fuel fuel' : ℕ} {db db' : DB} {w w₁ w' : World Unit DbFile} {o : Op} {e : DbError}
      (h : Reached db w)
      (hcall : (library o db).exec (perform ()) fuel w = some (.error e, w₁))
      (hopen : (dbOpen false).exec (perform ()) fuel' (w₁.exit ()) = some (.ok db', w')) :
      Reached db' w'

/-! ## What an end leaves of a chain -/

/-- What a call that has ended the process leaves of the chain of its key. -/
inductive Leaves (o : Op) (e : DbError) (es : List Rec) : List Rec → Prop
  | all (h : o.BadDatlen ∨ ¬ e.IsLimit) : Leaves o e es es
  | others (ho : o.GoodDatlen) (hsearch : search es o.key = .ok (lookup es o.key)) :
      Leaves o e es (without o.key es)

lemma lookup_without (key : Bytes) (es : List Rec) : lookup (without key es) key = none := by
  refine lookup_eq_none_iff.mpr fun r hr => ?_
  simpa using of_mem_filter hr

lemma search_without {key key' : Bytes} {d : Option Bytes} (hnd : (es.map Rec.key).Nodup)
    (hkey : key' ≠ key) (h : search es key = .ok d) :
    search (without key es) key' = search es key' := by
  induction es with
  | nil => rfl
  | cons r es ih =>
    rw [search] at h
    split_ifs at h with hsep hr
    · subst hr
      have hself : without r.key ([] ++ r :: es) = [] ++ es := without_append_cons hnd
      rw [nil_append, nil_append] at hself
      rw [hself, search, if_neg hsep, if_neg (Ne.symm hkey)]
    · have hcons : without key (r :: es) = r :: without key es := filter_cons_of_pos (by simpa)
      rw [hcons, search, search, ih (List.nodup_cons.mp hnd).2 h]

lemma Chain.without {K : Bytes → Prop} {c : ℕ} (hes : Chain K c es) (key : Bytes) :
    Chain K c (without key es) :=
  hes.sublist filter_sublist

lemma Leaves.search_iff {o : Op} {es' : List Rec} (h : Leaves o e es es') (he : e.IsLimit) :
    (∀ k : CString, chainOf k = chainOf o.key → search es' k = search es k) ↔
      (o.BadDatlen ∨ search es o.key = .ok none) := by
  cases h with
  | all h => exact iff_of_true (fun _ _ => rfl) (.inl (h.resolve_right (not_not_intro he)))
  | others ho hsearch =>
    constructor
    · intro hsame
      have hkey := hsame o.key rfl
      rw [hsearch] at hkey
      rw [hsearch, ← lookup_of_search hkey, lookup_without]
      exact .inr rfl
    · rintro (hbad | hnone)
      · exact absurd hbad (ho.not_bad)
      · intro k _
        rw [without_eq_self (lookup_eq_none_iff.mp (lookup_of_search hnone))]

section Exit

variable {ι : Type} [Fintype ι] [DecidableEq ι] {K : Bytes → Prop} {w : World ι DbFile}
  {G : Division ι DbFile Res (List Rec)} {p : ι} {o : Op} {e : DbError}

lemma Quiet.exit (hG : Quiet K w G) (p : ι) : ∃ G', Quiet K (w.exit p) G' ∧ G'.cur = G.cur := by
  have hown : (G.loc p).own = 0 := (hG.sound.keeps p).idle (hG.idle p)
  have hcells : G.pool (.inr .free) + 0 = G.pool (.inr .free) + (G.loc p).own := by rw [hown]
  obtain ⟨G', hS, hidle, hne, hcur⟩ :=
    hG.sound.exit (fun r _ => hG.idle p r) hcells (fun q _ => hG.idle q _) (hG.inv _)
  exact ⟨G', hG.next hS hne hidle, hcur.trans (update_eq_self _ _)⟩

lemma Quiet.seek (hG : Quiet K w G) (p : ι) (fd : DbFile) (n : ℕ) :
    ∃ G', Quiet K (w.seek p fd n) G' ∧ G'.cur = G.cur := by
  set h : Holding DbFile Res (List Rec) := .empty (update (w.pos p) fd n)
  have hloc := (hG.sound.keeps p).eq_empty (hG.idle p)
  have hS : Sound (protocol K) (w.seek p fd n) (G.setLoc p h) :=
    hG.sound.move rfl rfl rfl (by rw [hloc]; rfl) (by rw [hloc]; rfl)
      (by rw [hloc]; rfl) nofun nofun
  refine ⟨_, hG.next hS (fun q hq => G.loc_setLoc_of_ne hq h) fun r => ?_, rfl⟩
  rw [Division.loc_setLoc_self]
  rfl

lemma Quiet.of_aborted (hS : Sound (protocol K) w G) (hab : Aborted K o e (G.loc p))
    (hothers : ∀ q, q ≠ p → ∀ r, (G.loc q).held r = none) :
    ∃ G' es', Quiet K (w.exit p) G' ∧ Leaves o e (G.cur (.inl (chainOf o.key))) es' ∧
      G'.cur = update G.cur (.inl (chainOf o.key)) es' := by
  set c := chainOf o.key.val with hc
  -- in each case the process has the lock of the chain or none, and leaves a chain behind
  have hexit : ∀ es' extra, (∀ r, r ≠ .inl c → (G.loc p).held r = none) →
      chainCells c es' + extra = G.pool (.inl c) + (G.loc p).own → Chain K c es' →
      Leaves o e (G.cur (.inl c)) es' → ∃ G' es', Quiet K (w.exit p) G' ∧
        Leaves o e (G.cur (.inl c)) es' ∧ G'.cur = update G.cur (.inl c) es' := by
    intro es' extra honly hcells hes' hleaves
    obtain ⟨G', hS', hidle, hne, hcur⟩ :=
      hS.exit honly hcells (fun q hq => hothers q hq _) ⟨rfl, hes'⟩
    refine ⟨G', es', ⟨hS', fun q r => ?_⟩, hleaves, hcur⟩
    by_cases hq : q = p
    · subst hq
      exact hidle r
    · rw [hne q hq]
      exact hothers q hq r
  have hK := hS.keeps p
  generalize hloc : G.loc p = h at hab hexit hK
  cases hab with
  | datlen hbad =>
    obtain ⟨hpool, hes⟩ := hS.free (.inl c) fun q g hq => by
      by_cases hqp : q = p
      · rw [hqp, hloc] at hq
        cases hq
      · rw [hothers q hqp] at hq
        cases hq
    exact hexit _ 0 (fun _ _ => rfl) (congrArg (· + 0) hpool.symm) hes (.all (.inl hbad))
  | @unreadable m es pos hes hsearch =>
    obtain rfl : es = G.cur (.inl c) := hK.eq_cur (chainLock_self c m es)
    refine hexit _ 0 (fun r hr => chainLock_of_ne hr) ?_ hes (.all (.inr fun h => h))
    cases m with
    | read =>
      rw [← (hK.reader _ _ (chainLock_self ..)).2]
      rfl
    | write =>
      rw [(hK.writer _ _ (chainLock_self ..)).2, zero_add, add_zero]
      rfl
  | @limit _ es extra pos he ho hes hsearch =>
    obtain rfl : es = G.cur (.inl c) := hK.eq_cur (chainLock_self c .write es)
    refine hexit _ extra (fun r hr => chainLock_of_ne hr) ?_ (hes.without _) (.others ho hsearch)
    rw [(hK.writer _ _ (chainLock_self ..)).2, zero_add]

end Exit

/-! ## What is seen after an end -/

section Reached

variable {K : Bytes → Prop} {w w' : World Unit DbFile} {G G' : Division Unit DbFile Res (List Rec)}
  {db : DB} {e : DbError}

lemma Quiet.exec_fetch (hG : Quiet K w G) (hdb : Opened db) (key : CString) (hK : K key.val) :
    ∃ n r w', (library (.fetch key) db).exec (perform ()) n w = some (r, w') ∧
      r.map Prod.fst = (search (G.cur (.inl (chainOf key))) key).map Val.data := by
  obtain ⟨n, r, w', G', hexec, hS, -, -, hend⟩ := hG.exec_library (p := ()) (o := .fetch key) hdb hK
  refine ⟨n, r, w', hexec, ?_⟩
  cases r with
  | ok a =>
    obtain ⟨d, ⟨-, hret⟩, -, hch⟩ := hend
    cases d with
    | none =>
      have hnone := congrArg Prod.fst (hret fun _ => none)
      have hsome := congrArg Prod.fst (hret fun _ => some [])
      cases hnone.trans hsome.symm
    | some x =>
      obtain ⟨r, es, es'⟩ := x
      obtain ⟨rfl, -, hdo⟩ := hret
      obtain rfl : es = G.cur (.inl (chainOf key)) := hch.1 rfl
      rw [show search (G.cur (.inl (chainOf key))) key = _ from hdo.search]
      exact congrArg Except.ok hdo.val
  | error e =>
    obtain ⟨hab, hcur⟩ := hend
    have hkeep := hS.keeps ()
    generalize G'.loc () = h at hab hkeep
    cases hab with
    | datlen hbad => exact hbad.elim
    | @unreadable m es pos hes hsearch =>
      obtain rfl : es = G.cur (.inl (chainOf key)) :=
        (hkeep.eq_cur (chainLock_self _ m es)).trans (hcur _ rfl)
      rw [show search (G.cur (.inl (chainOf key))) key = _ from hsearch]
      rfl
    | limit he ho => exact ho.elim

lemma sees_iff (hG : Quiet K (w.exit ()) G) (key : CString) (hK : K key.val)
    (out : Except DbError Val) :
    Sees w key out ↔ out = (search (G.cur (.inl (chainOf key))) key).map Val.data := by
  obtain ⟨G₁, hG₁, hcur⟩ := hG.seek () .idx recOff
  obtain ⟨n, r, w₁, hexec, hr⟩ := hG₁.exec_fetch opened_openedDB key hK
  have hrun : (reopenFetch key).exec (perform ()) (1 + n) (w.exit ()) = some (r, w₁) :=
    exec_bind (exec_dbOpen () _) hexec
  rw [hcur] at hr
  constructor
  · rintro ⟨m, r', w₂, hrun', rfl⟩
    cases exec_unique hrun hrun'
    exact hr
  · rintro rfl
    exact ⟨_, r, w₁, hrun, hr⟩

lemma Quiet.reopen {fuel : ℕ} (hG : Quiet K w G)
    (hopen : (dbOpen false).exec (perform ()) fuel w = some (.ok db, w')) :
    Opened db ∧ ∃ G', Quiet K w' G' := by
  cases exec_unique (exec_dbOpen () w) hopen
  obtain ⟨G', hG', -⟩ := hG.seek () .idx recOff
  exact ⟨opened_openedDB, G', hG'⟩

lemma Quiet.call {fuel : ℕ} {o : Op} {r : Except DbError (Val × DB)} (hG : Quiet K w G)
    (hdb : Opened db) (hK : K o.key.val)
    (hcall : (library o db).exec (perform ()) fuel w = some (r, w')) :
    match r with
    | .ok a => Opened a.2 ∧ ∃ G', Quiet K w' G'
    | .error e => ∃ G' es', Quiet K (w'.exit ()) G' ∧
        Leaves o e (G.cur (.inl (chainOf o.key))) es' ∧
          ∀ c, G'.cur (.inl c) = update G.cur (.inl (chainOf o.key)) es' (.inl c) := by
  obtain ⟨n, r, w₁, G₁, hexec, hS, hloc, -, hend⟩ := hG.exec_library (p := ()) hdb hK
  cases exec_unique hexec hcall
  cases r with
  | ok a =>
    obtain ⟨d, hret, hidle, -⟩ := hend
    exact ⟨hret.1, G₁, hG.next hS hloc hidle⟩
  | error e =>
    obtain ⟨hab, hcur⟩ := hend
    obtain ⟨G', es', hG', hleaves, hcur'⟩ :=
      Quiet.of_aborted hS hab fun q hq => absurd (Subsingleton.elim q ()) hq
    rw [hcur _ rfl] at hleaves
    refine ⟨G', es', hG', hleaves, fun c => ?_⟩
    rw [hcur']
    by_cases hc : c = chainOf o.key
    · rw [hc, update_self, update_self]
    · have hne : (.inl c : Res) ≠ .inl (chainOf o.key) := fun h => hc (Sum.inl.inj h)
      rw [update_of_ne hne, update_of_ne hne, hcur _ rfl]

lemma Reached.quiet (h : Reached db w) : Opened db ∧ ∃ G, Quiet (fun _ => True) w G := by
  induction h with
  | created hopen =>
    obtain ⟨w₁, hopen₁, hidx, hdat, hlock⟩ :=
      exec_dbOpen_create (p := ()) (w := newFiles) rfl rfl fun _ _ _ => rfl
    cases exec_unique hopen₁ hopen
    exact ⟨opened_openedDB, _, (atRest_created _ hidx hdat hlock).toQuiet⟩
  | called h hcall ih =>
    obtain ⟨hdb, G, hG⟩ := ih
    exact hG.call hdb trivial hcall
  | closed h hopen ih =>
    obtain ⟨-, G, hG⟩ := ih
    obtain ⟨G₁, hG₁, -⟩ := hG.exit ()
    exact hG₁.reopen hopen
  | aborted h hcall hopen ih =>
    obtain ⟨hdb, G, hG⟩ := ih
    obtain ⟨G₁, -, hG₁, -⟩ := hG.call hdb trivial hcall
    exact hG₁.reopen hopen

lemma map_data_injective : Function.Injective (Except.map (ε := DbError) Val.data) := by
  intro x y hxy
  cases x <;> cases y <;> cases hxy <;> rfl

lemma sees_congr_iff (hG : Quiet (fun _ => True) (w.exit ()) G)
    (hG' : Quiet (fun _ => True) (w'.exit ()) G') : (∀ key out, Sees w' key out ↔ Sees w key out) ↔
      ∀ key : CString, search (G'.cur (.inl (chainOf key))) key =
        search (G.cur (.inl (chainOf key))) key := by
  constructor
  · intro hsame key
    have hout := (sees_iff hG key trivial _).mp
      ((hsame key _).mp ((sees_iff hG' key trivial _).mpr rfl))
    exact map_data_injective hout
  · intro hsame key out
    rw [sees_iff hG' key trivial, sees_iff hG key trivial, hsame key]

end Reached

lemma search_after {G G' : Division Unit DbFile Res (List Rec)} {es' : List Rec}
    (hcur : ∀ c, G'.cur (.inl c) = update G.cur (.inl (chainOf key)) es' (.inl c)) (k : CString) :
    search (G'.cur (.inl (chainOf k))) k = search (G.cur (.inl (chainOf k))) k ↔
      (chainOf k = chainOf key → search es' k = search (G.cur (.inl (chainOf key))) k) := by
  rw [hcur]
  by_cases hk : chainOf k = chainOf key
  · rw [hk, update_self]
    exact ⟨fun h _ => h, fun h => h rfl⟩
  · rw [update_of_ne fun h => hk (Sum.inl.inj h)]
    exact iff_of_true rfl fun h => absurd h hk

/-! ## What the checks of `dbStore` do to the keys -/

/-- In a new database the call `o₁` is made, and then `o₂`, which ends the process: what is seen of
the key before the second call, how it ends, and what is seen of the key after it. -/
def endOfCall (o₁ o₂ : Op) (key : CString) : Option
    (Except DbError Val × DbError × Except DbError Val) :=
  match (dbOpen true).exec (perform ()) 5 newFiles with
  | some (.ok db, w₀) =>
    match (library o₁ db).exec (perform ()) 50 w₀ with
    | some (.ok (_, db), w) =>
      match (library o₂ db).exec (perform ()) 50 w,
        (reopenFetch key).exec (perform ()) 50 (w.exit ()) with
      | some (.error e, w'), some (before, _) =>
        match (reopenFetch key).exec (perform ()) 50 (w'.exit ()) with
        | some (after, _) => some (before.map Prod.fst, e, after.map Prod.fst)
        | none => none
      | _, _ => none
    | _ => none
  | _ => none

lemma exists_of_endOfCall {o₁ o₂ : Op} {before after : Except DbError Val}
    (h : endOfCall o₁ o₂ key = some (before, e, after)) :
    ∃ db w fuel w', Reached db w ∧
      (library o₂ db).exec (perform ()) fuel w = some (.error e, w') ∧
      Sees w key before ∧ Sees w' key after := by
  unfold endOfCall at h
  split at h
  case h_1 db w₀ hopen =>
    split at h
    case h_1 v db w hcall =>
      split at h
      case h_1 e w' r w₁ hend hbefore =>
        split at h
        case h_1 r' w₂ hafter =>
          rw [Option.some.injEq, Prod.mk.injEq, Prod.mk.injEq] at h
          obtain ⟨hr, rfl, hr'⟩ := h
          exact ⟨db, w, 50, w', .called (.created hopen) hcall, hend, ⟨50, r, w₁, hbefore, hr⟩,
            ⟨50, r', w₂, hafter, hr'⟩⟩
        case h_2 => cases h
      case h_2 => cases h
    case h_2 => cases h
  case h_2 => cases h

def longKey (n : ℕ) : CString :=
  ⟨List.replicate n 97, fun h => absurd (List.eq_of_mem_replicate h) (by decide)⟩

def someData (n : ℕ) : CString :=
  ⟨List.replicate n 98, fun h => absurd (List.eq_of_mem_replicate h) (by decide)⟩

/-- A call that ends the process leaves what is seen of the other keys as it was. -/
theorem sees_other_keys {db : DB} {w w' : World Unit DbFile} (hw : Reached db w) {o : Op} {fuel : ℕ}
    (hcall : (library o db).exec (perform ()) fuel w = some (.error e, w')) {k : CString}
    (hk : k ≠ o.key) (out : Except DbError Val) : Sees w' k out ↔ Sees w k out := by
  obtain ⟨hdb, G, hG⟩ := hw.quiet
  obtain ⟨G', es', hG', hleaves, hcur⟩ := hG.call hdb trivial hcall
  obtain ⟨G₁, hG₁, hcur₁⟩ := hG.exit ()
  have hchain : Chain (fun _ => True) (chainOf o.key) (G.cur (.inl (chainOf o.key))) :=
    (hG.inv (.inl _)).2
  rw [sees_iff hG' k trivial, sees_iff hG₁ k trivial, hcur₁, (search_after hcur k).mpr]
  intro _
  cases hleaves with
  | all h => rfl
  | others ho hsearch =>
    exact search_without hchain.nodup (fun h => hk (Subtype.ext h)) hsearch

theorem sees_other_keys_short : ∃ db w fuel w', Reached db w ∧
    (library (.store (longKey 2) (someData 0) dbInsert) db).exec (perform ()) fuel w =
      some (.error .storeDatlen, w') ∧ ∀ out, Sees w' (longKey 1) out ↔ Sees w (longKey 1) out := by
  have hend : endOfCall (.fetch (longKey 1)) (.store (longKey 2) (someData 0) dbInsert)
      (longKey 1) = some (.ok (.data none), .storeDatlen, .ok (.data none)) := by decide +kernel
  obtain ⟨db, w, fuel, w', hw, hcall, -⟩ := exists_of_endOfCall hend
  exact ⟨db, w, fuel, w', hw, hcall, sees_other_keys hw hcall (by decide)⟩

/-- A `dbStore` that ends the process by one of its checks leaves what `dbFetch` sees as it was if
and only if the length of the data was refused or nothing was under the key. -/
theorem store_aborts_harmless_iff {db : DB} {w w' : World Unit DbFile} (hw : Reached db w)
    (key data : CString) (flag : ℤ) {fuel : ℕ} {e : DbError} (he : e.IsLimit)
    (hcall : (library (.store key data flag) db).exec (perform ()) fuel w =
    some (.error e, w')) :
    (∀ k out, Sees w' k out ↔ Sees w k out) ↔
      (¬ (datlenMin ≤ data.val.length + 1 ∧ data.val.length + 1 ≤ datlenMax) ∨
        Sees w key (.ok (.data none))) := by
  obtain ⟨hdb, G, hG⟩ := hw.quiet
  obtain ⟨G', es', hG', hleaves, hcur⟩ := hG.call hdb trivial hcall
  obtain ⟨G₁, hG₁, hcur₁⟩ := hG.exit ()
  have hnone : (.ok (.data none) : Except DbError Val) =
      (search (G.cur (.inl (chainOf key))) key).map Val.data ↔
        search (G.cur (.inl (chainOf key))) key = .ok none :=
    eq_comm.trans (map_data_injective.eq_iff (b := .ok none))
  rw [sees_congr_iff hG₁ hG', sees_iff hG₁ key trivial, hcur₁, hnone,
    forall_congr' fun k => search_after hcur k]
  exact hleaves.search_iff he

/-- A key that is too long is refused, and nothing is lost by it. -/
theorem store_aborts_harmless_tooLong : ∃ db w fuel w', Reached db w ∧
    (library (.store (longKey 1018) (someData 9) dbInsert) db).exec (perform ()) fuel w =
      some (.error .writeidxLength, w') ∧ ∀ k out, Sees w' k out ↔ Sees w k out := by
  have hend : endOfCall (.store (longKey 3) (someData 9) dbInsert)
      (.store (longKey 1018) (someData 9) dbInsert) (longKey 1018) =
        some (.ok (.data none), .writeidxLength, .ok (.data none)) := by decide +kernel
  obtain ⟨db, w, fuel, w', hw, hcall, hnone, -⟩ := exists_of_endOfCall hend
  exact ⟨db, w, fuel, w', hw, hcall,
    (store_aborts_harmless_iff (e := .writeidxLength) hw _ _ _ trivial hcall).mpr (.inr hnone)⟩

/-- Nine bytes are stored under a key that is as long as it can be, and then ten bytes are to
replace them: the index record would now be too long, and the key is gone. -/
theorem store_loses_key : ∃ db w fuel w', Reached db w ∧
    (library (.store (longKey 1018) (someData 10) dbReplace) db).exec (perform ()) fuel w =
      some (.error .writeidxLength, w') ∧
    Sees w (longKey 1018) (.ok (.data (some (someData 9).val))) ∧
    Sees w' (longKey 1018) (.ok (.data none)) ∧ ¬ ∀ k out, Sees w' k out ↔ Sees w k out := by
  have hend : endOfCall (.store (longKey 1018) (someData 9) dbInsert)
      (.store (longKey 1018) (someData 10) dbReplace) (longKey 1018) =
        some (.ok (.data (some (someData 9).val)), .writeidxLength, .ok (.data none)) := by
    decide +kernel
  obtain ⟨db, w, fuel, w', hw, hcall, hbefore, hafter⟩ := exists_of_endOfCall hend
  refine ⟨db, w, fuel, w', hw, hcall, hbefore, hafter, fun hsame => ?_⟩
  cases hafter.unique ((hsame _ _).mpr hbefore)

end UnixPrograms.Db

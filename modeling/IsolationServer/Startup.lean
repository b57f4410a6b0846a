import IsolationServer.Keys

/-!
# Startup cleanup

`main` scans for the keys `client:*` and `logined:*` that a previous run left
behind and deletes them. SCAN answers one batch for each cursor; `Scan` never
updates its cursor, so it sees only the batch for the cursor 0.
-/
namespace IsolationServer.Startup
open HashStore

/-- Glob patterns, of whose special characters the two patterns of `main` use
only the star. -/
def globMatch : Bytes → Bytes → Bool
  | [], key => key.isEmpty
  | c :: pattern, key =>
    if c = 42 then key.tails.any (globMatch pattern)
    else match key with
      | [] => false
      | k :: key => k == c && globMatch pattern key

/-- The keys that an iteration reports in at most `n` batches, following the
cursors until the cursor 0 comes back. -/
def reported (batch : UInt64 → List Bytes × UInt64) : ℕ → UInt64 → List Bytes
  | 0, _ => []
  | n + 1, cursor =>
    (batch cursor).1 ++
      if (batch cursor).2 = 0 then [] else reported batch n (batch cursor).2

/-- How the database answers `scan(cursor, pattern, out)` while it holds `s`:
the batch that is appended to `out` and the next cursor. The batches hold
matching keys, and a full iteration reports every matching key. -/
structure Scanner (s : Redis) where
  batch : Bytes → UInt64 → List Bytes × UInt64
  matching : ∀ pattern cursor, ∀ key ∈ (batch pattern cursor).1, globMatch pattern key = true
  complete : ∀ pattern key, s.existsKey key = true → globMatch pattern key = true →
    ∃ n, key ∈ reported (batch pattern) n 0

variable {s : Redis}

/-- The loop of `RedisService::Scan`. The cursor that `scan` returns is not
used, and `std::inserter(data, data.begin())` puts a batch in front. -/
def scanLoop (scanner : Scanner s) (pattern : Bytes) :
    ℕ → UInt64 → List Bytes → Option (List Bytes)
  | 0, _, _ => none
  | fuel + 1, cursor, data =>
    let data := (scanner.batch pattern cursor).1 ++ data
    if cursor = 0 then some data else scanLoop scanner pattern fuel cursor data

def scan (fuel : ℕ) (scanner : Scanner s) (pattern : Bytes) : Option (List Bytes) :=
  scanLoop scanner pattern fuel 0 []

/-- The store after the startup sequence of `main`. -/
def startupCleanup (fuel : ℕ) (scanner : Scanner s) : Option Redis := do
  let scanResult ← scan fuel scanner (str "client:*")
  let scanResult2 ← scan fuel scanner (str "logined:*")
  return (scanResult ++ scanResult2).foldl Store.del s

/-! ## Patterns -/

/-- A pattern that ends with its only star matches the keys with that prefix. -/
theorem globMatch_star (p key : Bytes) (hp : 42 ∉ p) :
    globMatch (p ++ [42]) key = true ↔ p <+: key := by
  induction p generalizing key with
  | nil =>
    simp only [List.nil_append, globMatch, if_true, List.any_eq_true, List.mem_tails,
      List.isEmpty_iff, List.nil_prefix, iff_true]
    exact ⟨[], List.nil_suffix, rfl⟩
  | cons c p ih =>
    have hc : c ≠ 42 := fun h => hp (h ▸ List.mem_cons_self)
    have hrest : 42 ∉ p := fun h => hp (List.mem_cons_of_mem _ h)
    cases key with
    | nil => simp [globMatch, hc]
    | cons k key =>
      rw [List.cons_append, globMatch, if_neg hc, List.cons_prefix_cons, Bool.and_eq_true,
        beq_iff_eq, ih key hrest]
      exact and_congr_left' eq_comm

theorem globMatch_client (key : Bytes) :
    globMatch (str "client:*") key = true ↔ str "client:" <+: key :=
  globMatch_star (str "client:") key (by decide)

theorem globMatch_logined (key : Bytes) :
    globMatch (str "logined:*") key = true ↔ str "logined:" <+: key :=
  globMatch_star (str "logined:") key (by decide)

/-! ## Deleting a list of keys -/

theorem hashGet_foldl_del (keys : List Bytes) (s : Redis) (k f : Bytes) :
    (keys.foldl Store.del s).hashGet k f = if k ∈ keys then none else s.hashGet k f := by
  induction keys generalizing s with
  | nil => simp
  | cons key keys ih =>
    rw [List.foldl_cons, ih, Store.hashGet_del]
    by_cases hk : k = key
    · simp [hk]
    · by_cases hmem : k ∈ keys <;> simp [hk, hmem]

/-- A key is gone if it was absent or is in the list. -/
theorem existsKey_foldl_del_false (keys : List Bytes) (s : Redis) (k : Bytes) :
    (keys.foldl Store.del s).existsKey k = false ↔ (s.existsKey k = true → k ∈ keys) := by
  induction keys generalizing s with
  | nil => simp
  | cons key keys ih =>
    rw [List.foldl_cons, ih, Store.existsKey_del]
    by_cases hk : k = key
    · simp [hk]
    · simp [hk]

/-! ## What the cleanup leaves -/

/-- The loop ends after the first batch. -/
theorem scan_eq {fuel : ℕ} (hfuel : 0 < fuel) (scanner : Scanner s) (pattern : Bytes) :
    scan fuel scanner pattern = some (scanner.batch pattern 0).1 := by
  obtain ⟨n, rfl⟩ := Nat.exists_eq_succ_of_ne_zero (Nat.pos_iff_ne_zero.mp hfuel)
  simp [scan, scanLoop]

/-- The cleanup ends, leaves no `client:` or `logined:` key, and leaves every
other key as it was. -/
def CleansUp (fuel : ℕ) (scanner : Scanner s) : Prop :=
  ∃ s', startupCleanup fuel scanner = some s' ∧ CleanStore s' ∧
    ∀ key, ¬ str "client:" <+: key → ¬ str "logined:" <+: key →
      ∀ f, s'.hashGet key f = s.hashGet key f

/-- The batches for the cursor 0 hold every key that is to be deleted. -/
def FirstBatchComplete (scanner : Scanner s) : Prop :=
  ∀ rest,
    (s.existsKey (str "client:" ++ rest) = true →
      str "client:" ++ rest ∈ (scanner.batch (str "client:*") 0).1) ∧
    (s.existsKey (str "logined:" ++ rest) = true →
      str "logined:" ++ rest ∈ (scanner.batch (str "logined:*") 0).1)

section Cleanup

variable {fuel : ℕ} (scanner : Scanner s)

theorem startupCleanup_eq (hfuel : 0 < fuel) : startupCleanup fuel scanner =
    some (((scanner.batch (str "client:*") 0).1 ++
      (scanner.batch (str "logined:*") 0).1).foldl Store.del s) := by
  simp [startupCleanup, scan_eq hfuel]

/-- A batch for one prefix holds no key that begins with another. -/
theorem not_mem_batch {pattern p q : Bytes} (hpattern : pattern = p ++ [42]) (hp : 42 ∉ p)
    (hpq : ¬ p <+: q) (hqp : ¬ q <+: p) (rest : Bytes) :
    q ++ rest ∉ (scanner.batch pattern 0).1 := by
  intro h
  have hmatch := scanner.matching _ _ _ h
  rw [hpattern, globMatch_star p _ hp] at hmatch
  exact (List.prefix_or_prefix_of_prefix hmatch (List.prefix_append q rest)).elim hpq hqp

/-- Only keys with one of the two prefixes are deleted, whatever the batches
are. -/
theorem spared {key : Bytes} (hc : ¬ str "client:" <+: key) (hl : ¬ str "logined:" <+: key) :
    key ∉ (scanner.batch (str "client:*") 0).1 ++ (scanner.batch (str "logined:*") 0).1 := by
  intro h
  rcases List.mem_append.mp h with h | h
  · exact hc ((globMatch_client key).mp (scanner.matching _ _ _ h))
  · exact hl ((globMatch_logined key).mp (scanner.matching _ _ _ h))

/-- Restart cleanup: it is complete, and spares all other keys, if and only if
the first batch for each pattern holds all keys with that prefix. -/
theorem cleansUp_iff (s : Redis) (scanner : Scanner s) (fuel : ℕ) (hfuel : 0 < fuel) :
    CleansUp fuel scanner ↔ FirstBatchComplete scanner := by
  unfold CleansUp FirstBatchComplete
  rw [startupCleanup_eq scanner hfuel]
  have hclient : ∀ rest, str "logined:" ++ rest ∉ (scanner.batch (str "client:*") 0).1 :=
    not_mem_batch scanner (p := str "client:") rfl (by decide) (by decide) (by decide)
  have hlogined : ∀ rest, str "client:" ++ rest ∉ (scanner.batch (str "logined:*") 0).1 :=
    not_mem_batch scanner (p := str "logined:") rfl (by decide) (by decide) (by decide)
  constructor
  · rintro ⟨s', hs', hclean, -⟩ rest
    obtain rfl := Option.some.inj hs'
    obtain ⟨hc, hl⟩ := hclean rest
    rw [existsKey_foldl_del_false, List.mem_append, or_iff_left (hlogined rest)] at hc
    rw [existsKey_foldl_del_false, List.mem_append, or_iff_right (hclient rest)] at hl
    exact ⟨hc, hl⟩
  · intro hfirst
    refine ⟨_, rfl, fun rest => ?_, fun key hc hl f => ?_⟩
    · rw [existsKey_foldl_del_false, existsKey_foldl_del_false, List.mem_append, List.mem_append,
        or_iff_left (hlogined rest), or_iff_right (hclient rest)]
      exact hfirst rest
    · rw [hashGet_foldl_del, if_neg (spared scanner hc hl)]

end Cleanup

/-- A store with two `client:` keys and one account. -/
def leftover : Redis :=
  ((Store.empty.hashSet (clientKey 1) (str "ConnectedTime") (str "0")).hashSet
    (clientKey 2) (str "ConnectedTime") (str "0")).hashSet (idKey (str "ab")) (str "password") []

theorem existsKey_leftover (key : Bytes) : leftover.existsKey key = true ↔
    key = clientKey 1 ∨ key = clientKey 2 ∨ key = idKey (str "ab") := by
  simp only [leftover, Store.existsKey_hashSet, Bool.or_eq_true, decide_eq_true_eq]
  have hempty : (Store.empty : Redis).existsKey key = false := rfl
  rw [hempty]
  tauto

/-- A database that puts all matching keys into one batch. -/
def oneBatch : Scanner leftover where
  batch pattern _ := ([clientKey 1, clientKey 2, idKey (str "ab")].filter (globMatch pattern), 0)
  matching pattern cursor key hkey := (List.mem_filter.mp hkey).2
  complete pattern key hkey hmatch := by
    refine ⟨1, ?_⟩
    rw [existsKey_leftover] at hkey
    simpa [reported, hmatch] using hkey

/-- A database that puts one key into the first batch. -/
def twoBatches : Scanner leftover where
  batch pattern cursor :=
    if cursor = 0 then ([clientKey 1].filter (globMatch pattern), 7)
    else ([clientKey 2, idKey (str "ab")].filter (globMatch pattern), 0)
  matching pattern cursor key hkey := by
    split at hkey <;> exact (List.mem_filter.mp hkey).2
  complete pattern key hkey hmatch := by
    refine ⟨2, ?_⟩
    rw [existsKey_leftover] at hkey
    simpa [reported, hmatch] using hkey

theorem cleansUp_one_batch : CleansUp 1 oneBatch := by
  have hmem : ∀ pattern key, leftover.existsKey key = true → globMatch pattern key = true →
      key ∈ (oneBatch.batch pattern 0).1 := by
    intro pattern key hkey hmatch
    rw [existsKey_leftover] at hkey
    exact List.mem_filter.mpr ⟨by simpa using hkey, hmatch⟩
  refine (cleansUp_iff leftover oneBatch 1 (by decide)).mpr fun rest => ⟨fun h => ?_, fun h => ?_⟩
  · exact hmem _ _ h ((globMatch_client _).mpr (List.prefix_append _ _))
  · exact hmem _ _ h ((globMatch_logined _).mpr (List.prefix_append _ _))

/-- What is not in the first batch stays in the store. -/
theorem second_batch_left_behind : ¬ ∀ (s : Redis) (scanner : Scanner s) (fuel : ℕ), 0 < fuel →
    CleansUp fuel scanner := by
  intro hall
  obtain ⟨s', hs', hclean, -⟩ := hall leftover twoBatches 1 (by decide)
  rw [startupCleanup_eq twoBatches (by decide)] at hs'
  obtain rfl := Option.some.inj hs'
  have hgone := (hclean (tokenStr 2)).1
  have hlogined : str "client:" ++ tokenStr 2 ∉ (twoBatches.batch (str "logined:*") 0).1 :=
    not_mem_batch twoBatches (p := str "logined:") rfl (by decide) (by decide) (by decide) _
  rw [existsKey_foldl_del_false, List.mem_append, or_iff_left hlogined] at hgone
  have hmem : clientKey 2 ∈ [clientKey 1].filter (globMatch (str "client:*")) :=
    hgone ((existsKey_leftover _).mpr (.inr (.inl rfl)))
  have heq : clientKey 2 = clientKey 1 := List.mem_singleton.mp (List.mem_of_mem_filter hmem)
  rw [clientKey_inj] at heq
  exact absurd heq (by decide)

end IsolationServer.Startup

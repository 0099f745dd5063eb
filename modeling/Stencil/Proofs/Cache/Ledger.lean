import Mathlib.Data.Set.Card
import Stencil.Files.Tree
import Stencil.Proofs.Cache.Entries

/-!
What a cache on disk holds at each point of a run, told by what happened to it: an entry counts from
the last time that something was put in for its key, until it is found wanting or the cache is
cleared. What is given is what can be read in the entry. That is what was put in, unless someone else
has written into the entry since.
-/

namespace Stencil.DiskCache

variable {κ α : Type}

def alter (c : DiskCache κ) (which : Path → Bool) (change : CacheEntry κ → CacheEntry κ) :
    DiskCache κ :=
  { c with entries := c.entries.map fun (key, e) => (key, if which key then change e else e) }

theorem lookup_alter (c : DiskCache κ) (key : Path) (which : Path → Bool)
    (change : CacheEntry κ → CacheEntry κ) :
    (c.alter which change).entries.lookup key =
      (c.entries.lookup key).map fun e => if which key then change e else e := by
  rw [alter]
  induction c.entries with
  | nil => rfl
  | cons entry rest ih =>
      rw [List.map_cons, List.lookup_cons, List.lookup_cons]
      by_cases same : key = entry.1
      · simp [same]
      · simp only [beq_false_of_ne same]
        exact ih

/-! Each key has one entry. -/

def keys (c : DiskCache κ) : List Path := c.entries.map Prod.fst

theorem mem_keys {c : DiskCache κ} {key : Path} :
    key ∈ c.keys ↔ ∃ e, c.entries.lookup key = some e := by
  rw [← Option.isSome_iff_exists, List.lookup_isSome_iff, keys, List.mem_map]
  constructor
  · rintro ⟨entry, member, rfl⟩
    exact ⟨entry, member, BEq.rfl⟩
  · rintro ⟨entry, member, same⟩
    exact ⟨entry, member, (eq_of_beq same).symm⟩

theorem nodup_discard {c : DiskCache κ} (distinct : c.keys.Nodup) (gone : Path) :
    (c.discard gone).keys.Nodup :=
  distinct.sublist (List.filter_sublist.map Prod.fst)

theorem nodup_put {c : DiskCache κ} (distinct : c.keys.Nodup) (coding : CacheCoding κ α)
    (files : FileTree) (now : Int) (p : Path) (others : List Path) (a : α) :
    (c.put coding files now p others a).keys.Nodup := by
  have gone : files.resolve p ∉ (c.discard (files.resolve p)).keys := by
    rw [mem_keys]
    rintro ⟨e, found⟩
    rw [lookup_discard_eq, if_pos rfl] at found
    cases found
  have before := nodup_discard distinct (files.resolve p)
  simp only [keys, put, List.map_append, List.map_cons, List.map_nil] at gone before ⊢
  rw [List.nodup_append]
  refine ⟨before, List.nodup_singleton _, ?_⟩
  rintro key member _ added rfl
  rw [List.mem_singleton.mp added] at member
  exact gone member

theorem nodup_get {c : DiskCache κ} (distinct : c.keys.Nodup) (coding : CacheCoding κ α)
    (files : FileTree) (now : Int) (p : Path) : (c.get coding files now p).2.keys.Nodup := by
  rcases get_eq_discard_or_self c coding files now p with ⟨_, same, _⟩ | ⟨_, gone⟩ | ⟨_, same⟩
  · rwa [same]
  · rw [gone]
    exact nodup_discard distinct _
  · rwa [same]

theorem keys_alter (c : DiskCache κ) (which : Path → Bool)
    (change : CacheEntry κ → CacheEntry κ) : (c.alter which change).keys = c.keys := by
  simp [keys, alter]

/-! Runs, and what happened in them. -/

/-- A cache, the files beside it, and the time. -/
structure Moment (κ : Type) where
  cache : DiskCache κ
  files : FileTree
  now : Int

inductive Event (κ α : Type)
  | put (p : Path) (others : List Path) (a : α)
  | get (p : Path)
  | clear
  | setLifetime (limit : Option Int)
  | change (c : FileChange)
  | stamp (which : Path → Bool) (written : Int)
  /-- Any other entries come to stand in place of some. -/
  | corrupt (which : Path → Bool) (corrupted : CacheEntry κ → CacheEntry κ)
  | wait (time : Int)

/-- What was put in, made from other files besides the source, and when. -/
structure Deposit (α : Type) where
  others : List Path
  result : α
  time : Int

inductive Happening (κ α : Type)
  | stored (key : Path) (d : Deposit α)
  | missed (key : Path)
  | cleared
  | stamped (which : Path → Bool) (written : Int)
  | corrupted (which : Path → Bool) (change : CacheEntry κ → CacheEntry κ)

namespace Moment

variable (coding : CacheCoding κ α)

def got (m : Moment κ) (p : Path) : Except Fault (Option α) × DiskCache κ :=
  m.cache.get coding m.files m.now p

/-- A change of the files that fails leaves everything as it is. -/
def after (m : Moment κ) : Event κ α → Moment κ
  | .put p others a => { m with cache := m.cache.put coding m.files m.now p others a }
  | .get p => { m with cache := (m.got coding p).2 }
  | .clear => { m with cache := m.cache.clear }
  | .setLifetime lifetime => { m with cache := { m.cache with lifetime } }
  | .change c =>
      match c.apply m.files m.now with
      | .ok files => { m with files }
      | .error _ => m
  | .stamp which written => { m with cache := m.cache.alter which fun e => { e with written } }
  | .corrupt which corrupted => { m with cache := m.cache.alter which corrupted }
  | .wait time => { m with now := time }

def noted (m : Moment κ) : Event κ α → List (Happening κ α)
  | .put p others a => [.stored (m.files.resolve p) ⟨others, a, m.now⟩]
  | .get p =>
      match (m.got coding p).1 with
      | .ok none => [.missed (m.files.resolve p)]
      | _ => []
  | .clear => [.cleared]
  | .stamp which written => [.stamped which written]
  | .corrupt which corrupted => [.corrupted which corrupted]
  | .setLifetime _ | .change _ | .wait _ => []

end Moment

/-- Runs from one moment to another, with what happened on the way, the newest first. -/
inductive Runs (coding : CacheCoding κ α) (start : Moment κ) :
    List (Happening κ α) → Moment κ → Prop
  | start : Runs coding start [] start
  | step {history : List (Happening κ α)} {m : Moment κ} (event : Event κ α) :
      Runs coding start history m →
        Runs coding start (m.noted coding event ++ history) (m.after coding event)

namespace Happening

def stores (key : Path) : Happening κ α → Bool
  | .stored other _ => other = key
  | _ => false

def removes (key : Path) : Happening κ α → Bool
  | .missed other => other = key
  | .cleared => true
  | _ => false

def corrupts (key : Path) : Happening κ α → Bool
  | .corrupted which _ => which key
  | _ => false

def stamp? (key : Path) : Happening κ α → Option Int
  | .stamped which written => if which key then some written else none
  | _ => none

def onEntry (key : Path) (x : Happening κ α) (e : CacheEntry κ) : CacheEntry κ :=
  match x with
  | .stamped which written => if which key then { e with written } else e
  | .corrupted which change => if which key then change e else e
  | _ => e

end Happening

def Deposit.entry (coding : CacheCoding κ α) (d : Deposit α) : CacheEntry κ :=
  ⟨d.time, coding.write d.others d.result⟩

/-- Whether something was put in for a key, and what happened after the last time. -/
structure LastPut (key : Path) (history later : List (Happening κ α)) (d : Deposit α) : Prop where
  split : ∃ before, history = later ++ .stored key d :: before
  last : ∀ x ∈ later, x.stores key = false

/-- Whether something was put in for a key, and neither found wanting nor cleared since. -/
def Held (key : Path) (history : List (Happening κ α)) : Prop :=
  ∃ later d, LastPut key history later d ∧ ∀ x ∈ later, x.removes key = false

/-- The time of the entry of a key: that of the last put, or one that it was given since. -/
def writtenSince (key : Path) (later : List (Happening κ α)) (d : Deposit α) : Int :=
  (later.findSome? (Happening.stamp? key)).getD d.time

def entrySince (coding : CacheCoding κ α) (key : Path) (later : List (Happening κ α))
    (d : Deposit α) : CacheEntry κ :=
  later.foldr (Happening.onEntry key) (d.entry coding)

def Leaves (coding : CacheCoding κ α) (key : Path) (history : List (Happening κ α))
    (e : CacheEntry κ) : Prop :=
  ∃ later d, LastPut key history later d ∧ (∀ x ∈ later, x.removes key = false) ∧
    e = entrySince coding key later d

section History

variable {coding : CacheCoding κ α} {key : Path} {history later : List (Happening κ α)}
  {x : Happening κ α} {d : Deposit α} {e : CacheEntry κ}

theorem lastPut_cons :
    LastPut key (x :: history) later d ↔
      (x = .stored key d ∧ later = []) ∨
        (x.stores key = false ∧ ∃ rest, later = x :: rest ∧ LastPut key history rest d) := by
  constructor
  · rintro ⟨⟨before, split⟩, last⟩
    cases later with
    | nil =>
        cases split
        exact .inl ⟨rfl, rfl⟩
    | cons y rest =>
        cases split
        refine .inr ⟨last _ List.mem_cons_self, rest, rfl, ⟨before, rfl⟩, ?_⟩
        exact fun y member => last y (List.mem_cons_of_mem _ member)
  · rintro (⟨rfl, rfl⟩ | ⟨other, rest, rfl, ⟨before, rfl⟩, last⟩)
    · exact ⟨⟨history, rfl⟩, fun _ impossible => nomatch impossible⟩
    · exact ⟨⟨before, rfl⟩, List.forall_mem_cons.mpr ⟨other, last⟩⟩

theorem LastPut.unique {later' : List (Happening κ α)} {d' : Deposit α}
    (first : LastPut key history later d) (second : LastPut key history later' d') :
    later = later' ∧ d = d' := by
  induction history generalizing later later' with
  | nil =>
      obtain ⟨⟨before, split⟩, _⟩ := first
      simp at split
  | cons x rest ih =>
      rcases lastPut_cons.mp first with ⟨rfl, rfl⟩ | ⟨other, _, rfl, earlier⟩
      · rcases lastPut_cons.mp second with ⟨same, rfl⟩ | ⟨other, _⟩
        · cases same
          exact ⟨rfl, rfl⟩
        · simp [Happening.stores] at other
      · rcases lastPut_cons.mp second with ⟨rfl, _⟩ | ⟨_, _, rfl, earlier'⟩
        · simp [Happening.stores] at other
        · obtain ⟨rfl, rfl⟩ := ih earlier earlier'
          exact ⟨rfl, rfl⟩

theorem leaves_stored :
    Leaves coding key (.stored key d :: history) e ↔ e = d.entry coding := by
  constructor
  · rintro ⟨later, d', last, _, rfl⟩
    rcases lastPut_cons.mp last with ⟨same, rfl⟩ | ⟨other, _⟩
    · cases same
      rfl
    · simp [Happening.stores] at other
  · rintro rfl
    refine ⟨[], d, lastPut_cons.mpr (.inl ⟨rfl, rfl⟩), ?_, rfl⟩
    exact fun _ impossible => nomatch impossible

theorem leaves_cons (other : x.stores key = false) :
    Leaves coding key (x :: history) e ↔
      x.removes key = false ∧ ∃ e', Leaves coding key history e' ∧ e = x.onEntry key e' := by
  constructor
  · rintro ⟨later, d, last, kept, rfl⟩
    rcases lastPut_cons.mp last with ⟨rfl, _⟩ | ⟨_, rest, rfl, lastRest⟩
    · simp [Happening.stores] at other
    · rw [List.forall_mem_cons] at kept
      exact ⟨kept.1, _, ⟨rest, d, lastRest, kept.2, rfl⟩, rfl⟩
  · rintro ⟨keeps, _, ⟨rest, d, last, kept, rfl⟩, rfl⟩
    exact ⟨x :: rest, d, lastPut_cons.mpr (.inr ⟨other, rest, rfl, last⟩),
      List.forall_mem_cons.mpr ⟨keeps, kept⟩, rfl⟩

theorem leaves_altered (other : x.stores key = false) (keeps : x.removes key = false) :
    Leaves coding key (x :: history) e ↔
      ∃ e', Leaves coding key history e' ∧ x.onEntry key e' = e := by
  rw [leaves_cons other, and_iff_right keeps]
  exact exists_congr fun e' => and_congr_right fun _ => eq_comm

theorem held_iff_leaves (coding : CacheCoding κ α) :
    Held key history ↔ ∃ e, Leaves coding key history e := by
  constructor
  · rintro ⟨later, d, last, kept⟩
    exact ⟨_, later, d, last, kept, rfl⟩
  · rintro ⟨_, later, d, last, kept, rfl⟩
    exact ⟨later, d, last, kept⟩

theorem writtenSince_cons :
    writtenSince key (x :: later) d = (x.stamp? key).getD (writtenSince key later d) := by
  rw [writtenSince, List.findSome?_cons]
  cases x.stamp? key <;> rfl

/-- An entry that nothing corrupted holds what was put in, with the time that it was given last. -/
theorem entrySince_intact (intact : ∀ x ∈ later, x.corrupts key = false) :
    entrySince coding key later d =
      ⟨writtenSince key later d, coding.write d.others d.result⟩ := by
  induction later with
  | nil => rfl
  | cons x rest ih =>
      rw [List.forall_mem_cons] at intact
      rw [entrySince, List.foldr_cons, ← entrySince, ih intact.2, writtenSince_cons]
      cases x with
      | stamped which written =>
          by_cases chosen : which key = true <;> simp [Happening.onEntry, Happening.stamp?, chosen]
      | corrupted which change =>
          have spared : which key = false := intact.1
          simp [Happening.onEntry, Happening.stamp?, spared]
      | _ => rfl

end History

section Run

variable {coding : CacheCoding κ α} {start m : Moment κ} {history : List (Happening κ α)}

theorem leaves_after (event : Event κ α)
    (agrees : ∀ key e, m.cache.entries.lookup key = some e ↔ Leaves coding key history e)
    (key : Path) (e : CacheEntry κ) :
    (m.after coding event).cache.entries.lookup key = some e ↔
      Leaves coding key (m.noted coding event ++ history) e := by
  cases event with
  | put p others a =>
      rw [Moment.after, lookup_put_eq]
      simp only [Moment.noted, List.cons_append, List.nil_append]
      split
      · next same =>
          rw [same, leaves_stored, Option.some.injEq, eq_comm]
          rfl
      · next other =>
          rw [agrees, leaves_cons (by simpa [Happening.stores] using Ne.symm other)]
          simp [Happening.removes, Happening.onEntry]
  | get p =>
      simp only [Moment.after, Moment.noted]
      by_cases missed : (m.got coding p).1 = .ok none
      · rw [Moment.got, lookup_get_miss _ _ _ _ _ _ missed, ← Moment.got, missed]
        simp only [List.cons_append, List.nil_append]
        rw [leaves_cons rfl]
        split
        · next same => simp [Happening.removes, same]
        · next other =>
            have other : m.files.resolve p ≠ key := Ne.symm other
            simp [Happening.removes, Happening.onEntry, other, agrees]
      · rw [Moment.got, get_kept _ _ _ _ _ missed]
        split
        · next impossible => exact absurd impossible missed
        · exact agrees key e
  | clear =>
      simp only [Moment.noted, List.cons_append, List.nil_append]
      rw [leaves_cons rfl]
      simp [Moment.after, clear, Happening.removes]
  | stamp which written =>
      rw [Moment.after, lookup_alter, Option.map_eq_some_iff]
      simp only [Moment.noted, List.cons_append, List.nil_append]
      rw [leaves_altered rfl rfl]
      exact exists_congr fun e' => and_congr_left fun _ => agrees key e'
  | corrupt which corrupted =>
      rw [Moment.after, lookup_alter, Option.map_eq_some_iff]
      simp only [Moment.noted, List.cons_append, List.nil_append]
      rw [leaves_altered rfl rfl]
      exact exists_congr fun e' => and_congr_left fun _ => agrees key e'
  | setLifetime limit => exact agrees key e
  | change c =>
      simp only [Moment.after]
      split
      · exact agrees key e
      · exact agrees key e
  | wait time => exact agrees key e

theorem Runs.leaves (runs : Runs coding start history m) (empty : start.cache.entries = []) :
    ∀ key e, m.cache.entries.lookup key = some e ↔ Leaves coding key history e := by
  induction runs with
  | start =>
      intro key e
      rw [empty]
      constructor
      · intro found
        cases found
      · rintro ⟨later, d, ⟨⟨before, split⟩, _⟩, _⟩
        simp at split
  | step event _ ih => exact leaves_after event ih

theorem nodup_after (event : Event κ α) (distinct : m.cache.keys.Nodup) :
    (m.after coding event).cache.keys.Nodup := by
  cases event with
  | put p others a => exact nodup_put distinct _ _ _ _ _ _
  | get p => exact nodup_get distinct _ _ _ _
  | clear => exact List.nodup_nil
  | stamp which written =>
      rw [Moment.after, keys_alter]
      exact distinct
  | corrupt which corrupted =>
      rw [Moment.after, keys_alter]
      exact distinct
  | setLifetime limit => exact distinct
  | change c =>
      simp only [Moment.after]
      split
      · exact distinct
      · exact distinct
  | wait time => exact distinct

theorem Runs.nodup (runs : Runs coding start history m) (empty : start.cache.entries = []) :
    m.cache.keys.Nodup := by
  induction runs with
  | start => simp [keys, empty]
  | step event _ ih => exact nodup_after event ih

theorem Runs.length_entries (runs : Runs coding start history m)
    (empty : start.cache.entries = []) :
    m.cache.entries.length = {key | Held key history}.ncard := by
  have same : {key | Held key history} = (m.cache.keys.toFinset : Set Path) := by
    ext key
    rw [Set.mem_ofPred_eq, held_iff_leaves coding, List.coe_toFinset, Set.mem_ofPred_eq, mem_keys]
    exact exists_congr fun e => (runs.leaves empty key e).symm
  rw [same, Set.ncard_coe_finset, List.toFinset_card_of_nodup (runs.nodup empty), keys,
    List.length_map]

end Run

/-- Whether what was last put in for a path is good still: neither gone nor corrupted, not too old,
and no older than its source and everything else that it was made from. -/
structure Good (m : Moment κ) (history : List (Happening κ α)) (p : Path)
    (later : List (Happening κ α)) (d : Deposit α) : Prop where
  last : LastPut (m.files.resolve p) history later d
  kept : ∀ x ∈ later, x.removes (m.files.resolve p) = false
  intact : ∀ x ∈ later, x.corrupts (m.files.resolve p) = false
  young : ∀ limit, m.cache.lifetime = some limit →
    m.now - writtenSince (m.files.resolve p) later d ≤ limit
  settled : ∀ q ∈ p :: d.others, ∃ changed, m.files.changed? q = some changed ∧
    changed ≤ writtenSince (m.files.resolve p) later d

/-- What asking for a path comes to, told by what happened before. -/
structure Answers (coding : CacheCoding κ α) (m : Moment κ) (history : List (Happening κ α))
    (p : Path) : Prop where
  /-- What is given is what can be read in the entry that is left, if it is not too old and what the
  entry names was not changed since. -/
  gives : ∀ a, (m.got coding p).1 = .ok (some a) ↔
    ∃ e others, Leaves coding (m.files.resolve p) history e ∧
      coding.read e.contents = .result others a ∧
      (∀ limit, m.cache.lifetime = some limit → m.now - e.written ≤ limit) ∧
      ∀ q ∈ p :: others, ∃ changed, m.files.changed? q = some changed ∧ changed ≤ e.written
  /-- Where nothing has corrupted the entry, that is what was put in last as long as it is good. -/
  givesGood : ∀ later d, LastPut (m.files.resolve p) history later d →
    (∀ x ∈ later, x.corrupts (m.files.resolve p) = false) →
    ∀ a, (m.got coding p).1 = .ok (some a) ↔ Good m history p later d ∧ d.result = a
  /-- Asking fails only in an entry that was corrupted so that it cannot be read to its end. -/
  fails : ∀ fault, (m.got coding p).1 = .error fault →
    ∃ later d, LastPut (m.files.resolve p) history later d ∧
      (∃ x ∈ later, x.corrupts (m.files.resolve p)) ∧
      coding.read (entrySince coding (m.files.resolve p) later d).contents = .failed fault
  /-- A hit or a failure changes nothing. -/
  keeps : (m.got coding p).1 ≠ .ok none → m.after coding (.get p) = m
  /-- A miss loses the entry of the path and no other. -/
  loses : (m.got coding p).1 = .ok none →
    (m.got coding p).2.entries.lookup (m.files.resolve p) = none ∧
      ∀ key, key ≠ m.files.resolve p →
        (m.got coding p).2.entries.lookup key = m.cache.entries.lookup key
  counts : m.cache.entries.length = {key | Held key history}.ncard

section Answers

variable {coding : CacheCoding κ α} {start m : Moment κ} {history later : List (Happening κ α)}
  {d : Deposit α}

theorem got_eq_some_iff (runs : Runs coding start history m) (empty : start.cache.entries = [])
    (p : Path) (a : α) : (m.got coding p).1 = .ok (some a) ↔
    ∃ e others, Leaves coding (m.files.resolve p) history e ∧
      coding.read e.contents = .result others a ∧
      (∀ limit, m.cache.lifetime = some limit → m.now - e.written ≤ limit) ∧
      ∀ q ∈ p :: others, ∃ changed, m.files.changed? q = some changed ∧ changed ≤ e.written := by
  rw [Moment.got, get_eq_some_iff]
  exact exists_congr fun e => exists_congr fun others =>
    and_congr_left fun _ => runs.leaves empty _ e

theorem got_eq_some_iff_good (runs : Runs coding start history m)
    (empty : start.cache.entries = []) {p : Path} (last : LastPut (m.files.resolve p) history later d)
    (intact : ∀ x ∈ later, x.corrupts (m.files.resolve p) = false) (a : α) :
    (m.got coding p).1 = .ok (some a) ↔ Good m history p later d ∧ d.result = a := by
  rw [got_eq_some_iff runs empty]
  constructor
  · rintro ⟨_, others, ⟨later', d', last', kept, rfl⟩, reading, young, settled⟩
    obtain ⟨rfl, rfl⟩ := last.unique last'
    rw [entrySince_intact intact] at reading young settled
    rw [coding.read_write] at reading
    cases reading
    exact ⟨⟨last, kept, intact, young, settled⟩, rfl⟩
  · rintro ⟨good, rfl⟩
    refine ⟨_, d.others, ⟨later, d, good.last, good.kept, rfl⟩, ?_⟩
    rw [entrySince_intact good.intact]
    exact ⟨coding.read_write _ _, good.young, good.settled⟩

/-- What a cache answers at each point of a run. -/
theorem got_answers (runs : Runs coding start history m) (empty : start.cache.entries = [])
    (p : Path) : Answers coding m history p where
  gives := got_eq_some_iff runs empty p
  givesGood later d last intact := got_eq_some_iff_good runs empty last intact
  fails fault failed := by
    obtain ⟨e, found, reading, -⟩ := (get_eq_error_iff _ _ _ _ _).mp failed
    obtain ⟨later, d, last, -, rfl⟩ := (runs.leaves empty _ _).mp found
    refine ⟨later, d, last, ?_, reading⟩
    by_contra intact
    rw [entrySince_intact (by simpa using intact), coding.read_write] at reading
    cases reading
  keeps kept := by rw [Moment.after, Moment.got, get_kept _ _ _ _ _ kept]
  loses missed := by
    constructor
    · rw [Moment.got, lookup_get_miss _ _ _ _ _ _ missed, if_pos rfl]
    · intro key other
      rw [Moment.got, lookup_get_miss _ _ _ _ _ _ missed, if_neg other]
  counts := runs.length_entries empty

end Answers

def beforePut : Moment (CacheContents Nat) where
  cache := { lifetime := some 10 }
  files := ⟨"/srv", [(["page"], .file (.ofText "page") 0), (["base"], .file (.ofText "base") 1)]⟩
  now := 5

def puttingPage : Event (CacheContents Nat) Nat := .put ["page"] [["base"]] 7

def afterPut : Moment (CacheContents Nat) :=
  ((beforePut.after (.plain Nat) puttingPage).after (.plain Nat)
    (.stamp (fun _ => true) 4)).after (.plain Nat) (.wait 12)

theorem afterPut_runs : Runs (.plain Nat) beforePut
    [.stamped (fun _ => true) 4, .stored ["page"] ⟨[["base"]], 7, 5⟩] afterPut :=
  .step (.wait 12) (.step (.stamp (fun _ => true) 4) (.step puttingPage .start))

theorem got_answers_afterPut :
    (afterPut.got (.plain Nat) ["page"]).1 = .ok (some 7) ∧
      afterPut.after (.plain Nat) (.get ["page"]) = afterPut := by
  have answers := got_answers afterPut_runs rfl ["page"]
  have given : (afterPut.got (.plain Nat) ["page"]).1 = .ok (some 7) := by
    refine (answers.givesGood [.stamped (fun _ => true) 4] ⟨[["base"]], 7, 5⟩
      ⟨⟨[], rfl⟩, by decide⟩ (by decide) 7).mpr ⟨⟨⟨⟨[], rfl⟩, by decide⟩, by decide, by decide, ?_, ?_⟩,
        rfl⟩
    · intro limit same
      obtain rfl : (10 : Int) = limit := Option.some.inj same
      decide
    · rw [List.forall_mem_cons, List.forall_mem_singleton]
      exact ⟨⟨0, rfl, by decide⟩, ⟨1, rfl, by decide⟩⟩
  exact ⟨given, answers.keeps (by simp [given])⟩

def afterCorruption : Moment (CacheContents Nat) :=
  afterPut.after (.plain Nat) (.corrupt (fun _ => true) fun e => { e with contents := .result [] 8 })

/-- What was never put in is given, and a good entry is lost where the path that is asked for leads
to its source only once it is resolved. -/
theorem got_corrupted_and_unfollowed :
    (afterCorruption.got (.plain Nat) ["page"]).1 = .ok (some 8) ∧
      afterPut.files.resolve ["gone", "..", "page"] = ["page"] ∧
      (afterPut.got (.plain Nat) ["gone", "..", "page"]).1 = .ok none ∧
      (afterPut.got (.plain Nat) ["gone", "..", "page"]).2.entries.lookup ["page"] = none := by
  exact ⟨rfl, rfl, rfl, rfl⟩

end Stencil.DiskCache

import Mathlib.Data.List.Basic
import Mathlib.Data.List.TakeWhile
import Mathlib.Data.Nat.Notation

/-!
# `getopt_long`

The arguments are read element by element: options with their arguments, and words.  Words end the
options (`+`) or are put behind them, so that the vector is another one afterwards.  Elements that
were read are read alike wherever they stand (`tokenize_append`); hence a vector in its new order
gives the same events (`alike_tokenize_argv`), unless its last option lacks an argument and there is
a word to take for it.
-/

namespace Getopt

abbrev Arg := List Char

/-- An option is known by a value of `ι`; the flag says whether it takes an argument. -/
structure Spec (ι : Type) where
  short : Char → Option (ι × Bool)
  long : List (String × ι × Bool)

/-- What a call returns. -/
inductive Event (ι : Type) where
  | option (i : ι) (arg : Arg)
  /-- `?` -/
  | invalid
  deriving DecidableEq

variable {ι : Type} (spec : Spec ι)

/-! ## One element -/

/-- The events of an element, and the option whose argument is the element behind it. -/
structure Reading (ι : Type) where
  events : List (Event ι)
  wants : Option ι

/-- A name or the beginning of one name only. -/
def longOption (name : Arg) : Option (ι × Bool) :=
  match spec.long.find? fun e => e.1.toList == name with
  | some e => some e.2
  | none =>
    match spec.long.filter fun e => name.isPrefixOf e.1.toList with
    | [e] => some e.2
    | _ => none

/-- An element without its two dashes. -/
def readLong (t : Arg) : Reading ι :=
  match longOption spec (t.takeWhile (· != '=')), t.dropWhile (· != '=') with
  | some (i, true), _ :: arg => ⟨[.option i arg], none⟩
  | some (i, true), [] => ⟨[], some i⟩
  | some (i, false), [] => ⟨[.option i []], none⟩
  | _, _ => ⟨[.invalid], none⟩

/-- A cluster of short options. -/
def readShort : Arg → Reading ι
  | [] => ⟨[], none⟩
  | c :: t =>
    match spec.short c with
    | some (i, true) => if t = [] then ⟨[], some i⟩ else ⟨[.option i t], none⟩
    | some (i, false) => ⟨.option i [] :: (readShort t).events, (readShort t).wants⟩
    | none => ⟨.invalid :: (readShort t).events, (readShort t).wants⟩

def readElement (arg : Arg) : Reading ι :=
  match arg with
  | '-' :: '-' :: t => readLong spec t
  | '-' :: t => readShort spec t
  | _ => ⟨[], none⟩

/-- A dash alone is a word. -/
def isOption (arg : Arg) : Bool := arg.head? == some '-' && arg != ['-']

def dashes : Arg := ['-', '-']

/-! ## The vector -/

inductive Item (ι : Type) where
  | option (elements : List Arg) (events : List (Event ι))
  | word (w : Arg)

/-- How the options end. -/
inductive Ending (ι : Type) where
  | done
  /-- At `--`. -/
  | dashes (rest : List Arg)
  /-- With an option that lacks its argument. -/
  | missing (arg : Arg) (events : List (Event ι))
  /-- At a word, where words end them. -/
  | stopped (rest : List Arg)

structure Tokens (ι : Type) where
  items : List (Item ι)
  ending : Ending ι

def Tokens.cons (it : Item ι) (ts : Tokens ι) : Tokens ι := { ts with items := it :: ts.items }

def tokenize (strict : Bool) : List Arg → Tokens ι
  | [] => ⟨[], .done⟩
  | a :: r =>
    if a = dashes then ⟨[], .dashes r⟩
    else if isOption a = false then
      if strict then ⟨[], .stopped (a :: r)⟩ else (tokenize strict r).cons (.word a)
    else
      match (readElement spec a).wants with
      | none => (tokenize strict r).cons (.option [a] (readElement spec a).events)
      | some i =>
        match r with
        | b :: r =>
          (tokenize strict r).cons (.option [a, b] ((readElement spec a).events ++ [.option i b]))
        | [] => ⟨[], .missing a (readElement spec a).events⟩

def Item.elements : Item ι → List Arg
  | .option elements _ => elements
  | .word w => [w]

def Item.events : Item ι → List (Event ι)
  | .option _ events => events
  | .word _ => []

def Item.isWord : Item ι → Bool
  | .option .. => false
  | .word _ => true

/-- What stands before the words when all is read. -/
def Ending.front : Ending ι → List Arg
  | .dashes _ => [Getopt.dashes]
  | .missing arg _ => [arg]
  | _ => []

def Ending.back : Ending ι → List Arg
  | .dashes rest | .stopped rest => rest
  | _ => []

def Ending.events : Ending ι → List (Event ι)
  | .missing _ events => events ++ [.invalid]
  | _ => []

def Tokens.options (ts : Tokens ι) : List (Item ι) := ts.items.filter (!·.isWord)

def Tokens.words (ts : Tokens ι) : List (Item ι) := ts.items.filter (·.isWord)

/-- What the calls return one after the other. -/
def Tokens.events (ts : Tokens ι) : List (Event ι) :=
  ts.items.flatMap Item.events ++ ts.ending.events

/-- The vector after the last call: the words are behind the options. -/
def Tokens.argv (ts : Tokens ι) : List Arg :=
  ts.options.flatMap Item.elements ++ ts.ending.front ++ ts.words.flatMap Item.elements ++
    ts.ending.back

/-- The calls up to an event, and the vector then: words that were passed are behind the options. -/
def callUntil (strict : Bool) (p : Event ι → Bool) (argv : List Arg) : Bool × List Arg :=
  let ts := tokenize spec strict argv
  match ts.items.dropWhile fun it => !it.events.any p with
  | it :: after =>
    (true, (Tokens.mk (ts.items.takeWhile (fun it => !it.events.any p) ++ [it]) .done).argv ++
      after.flatMap Item.elements ++ ts.ending.front ++ ts.ending.back)
  | [] => (ts.events.any p, ts.argv)

/-- Two loops over one vector: a search for an event, then all calls from the start. -/
def searchThenCall (strict : Bool) (p : Event ι → Bool) (argv : List Arg) :
    Bool × List (Event ι) × List Arg :=
  let search := callUntil spec strict p argv
  (search.1, (tokenize spec strict search.2).events, (tokenize spec strict search.2).argv)

/-! ## Elements that are read alike -/

@[simp] theorem Item.isWord_option (elements : List Arg) (events : List (Event ι)) :
    (Item.option elements events).isWord = false := rfl

@[simp] theorem Item.isWord_word (w : Arg) : (Item.word w : Item ι).isWord = true := rfl

@[simp] theorem Tokens.cons_items (it : Item ι) (ts : Tokens ι) :
    (ts.cons it).items = it :: ts.items := rfl

@[simp] theorem Tokens.cons_ending (it : Item ι) (ts : Tokens ι) :
    (ts.cons it).ending = ts.ending := rfl

variable (strict : Bool)

/-- Whatever follows it, the item is read. -/
def IsRead (it : Item ι) : Prop :=
  ∀ r, tokenize spec strict (it.elements ++ r) = (tokenize spec strict r).cons it

variable {spec strict}

theorem isRead_of_mem {argv : List Arg} :
    ∀ it ∈ (tokenize spec strict argv).items, IsRead spec strict it := by
  fun_induction tokenize spec strict argv with
  | case1 => simp
  | case2 => simp
  | case3 => simp
  | case4 a r hdashes hword hstrict ih =>
    intro it hit
    rw [Tokens.cons_items, List.mem_cons] at hit
    rcases hit with rfl | hit
    · intro r'
      change tokenize spec strict (a :: r') = _
      rw [tokenize.eq_def]
      dsimp only
      rw [if_neg hdashes, if_pos hword, if_neg hstrict]
    · exact ih it hit
  | case5 a r hdashes hword hwants ih =>
    intro it hit
    rw [Tokens.cons_items, List.mem_cons] at hit
    rcases hit with rfl | hit
    · intro r'
      change tokenize spec strict (a :: r') = _
      rw [tokenize.eq_def]
      dsimp only
      rw [if_neg hdashes, if_neg hword, hwants]
    · exact ih it hit
  | case6 a hdashes hword i hwants b r ih =>
    intro it hit
    rw [Tokens.cons_items, List.mem_cons] at hit
    rcases hit with rfl | hit
    · intro r'
      change tokenize spec strict (a :: b :: r') = _
      rw [tokenize.eq_def]
      dsimp only
      rw [if_neg hdashes, if_neg hword, hwants]
    · exact ih it hit
  | case7 => simp

/-- The ending is read as an ending. -/
theorem tokenize_ending (argv : List Arg) :
    tokenize spec strict ((tokenize spec strict argv).ending.front ++
      (tokenize spec strict argv).ending.back) = ⟨[], (tokenize spec strict argv).ending⟩ := by
  fun_induction tokenize spec strict argv with
  | case1 => rfl
  | case2 r =>
    change tokenize spec strict (dashes :: r) = _
    rw [tokenize.eq_def]
    exact if_pos rfl
  | case3 a r hdashes hword hstrict =>
    change tokenize spec strict (a :: r) = _
    rw [tokenize.eq_def]
    dsimp only
    rw [if_neg hdashes, if_pos hword, if_pos hstrict]
  | case4 a r hdashes hword hstrict ih => exact ih
  | case5 a r hdashes hword hwants ih => exact ih
  | case6 a hdashes hword i hwants b r ih => exact ih
  | case7 a hdashes hword i hwants =>
    change tokenize spec strict [a] = _
    rw [tokenize.eq_def]
    dsimp only
    rw [if_neg hdashes, if_neg hword, hwants]

theorem tokenize_append {items : List (Item ι)} (h : ∀ it ∈ items, IsRead spec strict it)
    (r : List Arg) :
    tokenize spec strict (items.flatMap Item.elements ++ r) =
      ⟨items ++ (tokenize spec strict r).items, (tokenize spec strict r).ending⟩ := by
  induction items with
  | nil => rfl
  | cons it items ih =>
    rw [List.flatMap_cons, List.append_assoc, h it List.mem_cons_self,
      ih fun it' hit' => h it' (List.mem_cons_of_mem it hit')]
    rfl

/-- Words that end the options are never read as items. -/
theorem words_eq_nil (argv : List Arg) : (tokenize spec true argv).words = [] := by
  have hnone : ∀ it ∈ (tokenize spec true argv).items, it.isWord = false := by
    fun_induction tokenize spec true argv with
    | case1 => simp
    | case2 => simp
    | case3 => simp
    | case4 a r hdashes hword hstrict ih => exact absurd rfl hstrict
    | case5 a r hdashes hword hwants ih => simpa using ih
    | case6 a hdashes hword i hwants b r ih => simpa using ih
    | case7 => simp
  exact List.filter_eq_nil_iff.2 fun it hit => by simp [hnone it hit]

theorem words_eq_cons_of_head? {ts : Tokens ι} {w : Arg}
    (h : (ts.words.flatMap Item.elements).head? = some w) : ∃ ws, ts.words = .word w :: ws := by
  cases hwords : ts.words with
  | nil =>
    rw [hwords] at h
    cases h
  | cons it ws =>
    have hword : it.isWord = true :=
      (List.mem_filter.1 (hwords ▸ List.mem_cons_self : it ∈ ts.words)).2
    cases it with
    | option elements events => exact absurd hword Bool.false_ne_true
    | word v =>
      rw [hwords] at h
      obtain rfl : v = w := Option.some.inj h
      exact ⟨ws, rfl⟩

/-- Where words end the options, the first of them does. -/
theorem ending_of_words_eq_cons {argv : List Arg} {w : Arg} {ws : List (Item ι)}
    (h : (tokenize spec false argv).words = .word w :: ws) :
    ∃ rest, (tokenize spec true argv).ending = .stopped (w :: rest) := by
  fun_induction tokenize spec false argv with
  | case1 => cases h
  | case2 => cases h
  | case3 a r hdashes hword hstrict => cases hstrict
  | case4 a r hdashes hword hstrict ih =>
    obtain ⟨heq, -⟩ := List.cons.inj h
    obtain rfl := Item.word.inj heq
    refine ⟨r, ?_⟩
    rw [tokenize.eq_def]
    dsimp only
    rw [if_neg hdashes, if_pos hword]
    rfl
  | case5 a r hdashes hword hwants ih =>
    obtain ⟨rest, hending⟩ := ih h
    refine ⟨rest, ?_⟩
    rw [tokenize.eq_def]
    dsimp only
    rw [if_neg hdashes, if_neg hword, hwants]
    exact hending
  | case6 a hdashes hword i hwants b r ih =>
    obtain ⟨rest, hending⟩ := ih h
    refine ⟨rest, ?_⟩
    rw [tokenize.eq_def]
    dsimp only
    rw [if_neg hdashes, if_neg hword, hwants]
    exact hending
  | case7 => cases h

/-- An option that waits for its argument takes one. -/
theorem takes_of_wants {arg : Arg} {i : ι} (h : (readElement spec arg).wants = some i) :
    (∃ c, spec.short c = some (i, true)) ∨ ∃ e ∈ spec.long, e.2 = (i, true) := by
  have hlong (t : Arg) (ht : (readLong spec t).wants = some i) :
      ∃ e ∈ spec.long, e.2 = (i, true) := by
    have hname {name : Arg} {o : ι × Bool} (ho : longOption spec name = some o) :
        ∃ e ∈ spec.long, e.2 = o := by
      unfold longOption at ho
      split at ho
      · next e he => exact ⟨e, List.mem_of_find?_eq_some he, Option.some.inj ho⟩
      · split at ho
        · next e he =>
          have hmem : e ∈ spec.long.filter fun e => name.isPrefixOf e.1.toList :=
            he ▸ List.mem_singleton_self e
          exact ⟨e, (List.mem_filter.1 hmem).1, Option.some.inj ho⟩
        · cases ho
    unfold readLong at ht
    split at ht
    · cases ht
    · next hoption _ =>
      obtain rfl := Option.some.inj ht
      exact hname hoption
    · cases ht
    · cases ht
  have hshort (t : Arg) (ht : (readShort spec t).wants = some i) :
      ∃ c, spec.short c = some (i, true) := by
    induction t with
    | nil => cases ht
    | cons c t ih =>
      unfold readShort at ht
      split at ht
      · next hoption =>
        split at ht
        · obtain rfl := Option.some.inj ht
          exact ⟨c, hoption⟩
        · cases ht
      · exact ih ht
      · exact ih ht
  unfold readElement at h
  split at h
  · exact Or.inr (hlong _ h)
  · exact Or.inl (hshort _ h)
  · cases h

/-! ## The vector as it was given -/

/-- What stands before the first word. -/
def Tokens.beforeWord (ts : Tokens ι) : List Arg :=
  (ts.items.takeWhile (!·.isWord)).flatMap Item.elements

/-- The first word and what is behind it; without a word, what ends the options. -/
def Tokens.fromWord (ts : Tokens ι) : List Arg :=
  (ts.items.dropWhile (!·.isWord)).flatMap Item.elements ++ (ts.ending.front ++ ts.ending.back)

theorem elements_tokenize (argv : List Arg) :
    (tokenize spec strict argv).items.flatMap Item.elements ++
      ((tokenize spec strict argv).ending.front ++ (tokenize spec strict argv).ending.back) = argv := by
  fun_induction tokenize spec strict argv with
  | case1 => rfl
  | case2 r => rfl
  | case3 a r hdashes hword hstrict => rfl
  | case4 a r hdashes hword hstrict ih => exact congrArg (a :: ·) ih
  | case5 a r hdashes hword hwants ih => exact congrArg (a :: ·) ih
  | case6 a hdashes hword i hwants b r ih => exact congrArg (a :: b :: ·) ih
  | case7 a hdashes hword i hwants => rfl

theorem beforeWord_append_fromWord (argv : List Arg) :
    (tokenize spec strict argv).beforeWord ++ (tokenize spec strict argv).fromWord = argv := by
  rw [Tokens.beforeWord, Tokens.fromWord, ← List.append_assoc, ← List.flatMap_append,
    List.takeWhile_append_dropWhile, elements_tokenize]

theorem head?_fromWord {ts : Tokens ι} {w : Arg}
    (h : (ts.words.flatMap Item.elements).head? = some w) : ts.fromWord.head? = some w := by
  obtain ⟨ws, hwords⟩ := words_eq_cons_of_head? h
  obtain ⟨before, after, hitems, hbefore, -, -⟩ := List.filter_eq_cons_iff.1 hwords
  have hnot : ∀ it ∈ before, (!it.isWord) = true := fun it hit => by simpa using hbefore it hit
  rw [Tokens.fromWord, hitems, List.dropWhile_append_of_pos hnot,
    List.dropWhile_cons_of_neg (by simp)]
  rfl

/-- An option is an element that begins with a dash, and may have another one as its argument. -/
theorem elements_of_isWord_eq_false {argv : List Arg} {it : Item ι}
    (hit : it ∈ (tokenize spec strict argv).items) (hword : it.isWord = false) :
    ∃ a, isOption a = true ∧ (it.elements = [a] ∨ ∃ b, it.elements = [a, b]) := by
  fun_induction tokenize spec strict argv with
  | case1 => cases hit
  | case2 r => cases hit
  | case3 a r hdashes hword hstrict => cases hit
  | case4 a r hdashes hw hstrict ih =>
    rcases List.mem_cons.1 hit with rfl | hit
    · cases hword
    · exact ih hit
  | case5 a r hdashes hw hwants ih =>
    rcases List.mem_cons.1 hit with rfl | hit
    · exact ⟨a, by simpa using hw, Or.inl rfl⟩
    · exact ih hit
  | case6 a hdashes hw i hwants b r ih =>
    rcases List.mem_cons.1 hit with rfl | hit
    · exact ⟨a, by simpa using hw, Or.inr ⟨b, rfl⟩⟩
    · exact ih hit
  | case7 a hdashes hw i hwants => cases hit

/-! ## The vector in its new order -/

/-- No option is waiting for a word that is put behind it. -/
def Tokens.IsSettled (ts : Tokens ι) : Prop :=
  ts.words = [] ∨ ∀ arg events, ts.ending ≠ .missing arg events

/-- What the calls make of two vectors is the same. -/
def Tokens.Alike (ts ts' : Tokens ι) : Prop := ts.events = ts'.events ∧ ts.argv = ts'.argv

theorem flatMap_events_options (items : List (Item ι)) :
    (items.filter (!·.isWord)).flatMap Item.events = items.flatMap Item.events := by
  induction items with
  | nil => rfl
  | cons it items ih =>
    cases it with
    | option elements events => simpa using ih
    | word w => simpa [Item.events] using ih

theorem alike_of_filter {ts ts' : Tokens ι} (hoptions : ts'.options = ts.options)
    (hwords : ts'.words = ts.words) (hending : ts'.ending = ts.ending) : ts'.Alike ts := by
  constructor
  · have hevents := congrArg (fun items => items.flatMap Item.events) hoptions
    dsimp only [Tokens.options] at hevents
    rw [flatMap_events_options, flatMap_events_options] at hevents
    rw [Tokens.events, Tokens.events, hevents, hending]
  · rw [Tokens.argv, Tokens.argv, hoptions, hwords, hending]

theorem filter_options_words (items : List (Item ι)) :
    ((items.filter (!·.isWord)) ++ items.filter (·.isWord)).filter (!·.isWord) =
        items.filter (!·.isWord) ∧
      ((items.filter (!·.isWord)) ++ items.filter (·.isWord)).filter (·.isWord) =
        items.filter (·.isWord) := by
  simp [List.filter_append, List.filter_filter]

theorem strict_of_stopped {argv rest : List Arg}
    (h : (tokenize spec strict argv).ending = .stopped rest) : strict = true := by
  fun_induction tokenize spec strict argv with
  | case1 => cases h
  | case2 => cases h
  | case3 a r hdashes hword hstrict => exact hstrict
  | case4 a r hdashes hword hstrict ih => exact ih h
  | case5 a r hdashes hword hwants ih => exact ih h
  | case6 a hdashes hword i hwants b r ih => exact ih h
  | case7 => cases h

/-- Any order of the items is read as it stands, with the ending behind it. -/
theorem tokenize_items (argv : List Arg) {items : List (Item ι)}
    (h : ∀ it ∈ items, it ∈ (tokenize spec strict argv).items) :
    tokenize spec strict (items.flatMap Item.elements ++
      ((tokenize spec strict argv).ending.front ++ (tokenize spec strict argv).ending.back)) =
        ⟨items, (tokenize spec strict argv).ending⟩ := by
  rw [tokenize_append fun it hit => isRead_of_mem it (h it hit), tokenize_ending, List.append_nil]

/-- Without words the order is the old one. -/
theorem tokenize_argv_of_words_eq_nil {argv : List Arg}
    (h : (tokenize spec strict argv).words = []) :
    tokenize spec strict (tokenize spec strict argv).argv =
      ⟨(tokenize spec strict argv).options, (tokenize spec strict argv).ending⟩ := by
  have hoptions : ∀ it ∈ (tokenize spec strict argv).options,
      it ∈ (tokenize spec strict argv).items := fun it hit => (List.mem_filter.1 hit).1
  have hitems := tokenize_items argv hoptions
  rw [Tokens.argv, h, List.flatMap_nil, List.append_nil, List.append_assoc]
  exact hitems

/-- **A vector in its new order gives the same events and keeps its order.** -/
theorem alike_tokenize_argv (argv : List Arg) (h : (tokenize spec strict argv).IsSettled) :
    (tokenize spec strict (tokenize spec strict argv).argv).Alike (tokenize spec strict argv) ∧
      (tokenize spec strict (tokenize spec strict argv).argv).IsSettled := by
  generalize hts : tokenize spec strict argv = ts at h ⊢
  have hoptions : ∀ it ∈ ts.options, it ∈ (tokenize spec strict argv).items := fun it hit =>
    hts ▸ (List.mem_filter.1 hit).1
  have hall : ∀ it ∈ ts.options ++ ts.words, it ∈ (tokenize spec strict argv).items :=
    fun it hit => hts ▸ (List.mem_append.1 hit).elim (fun hit => (List.mem_filter.1 hit).1)
      fun hit => (List.mem_filter.1 hit).1
  have hfilter := filter_options_words ts.items
  by_cases hwords : ts.words = []
  · have hquiet := tokenize_argv_of_words_eq_nil (hts.symm ▸ hwords)
    rw [hts] at hquiet
    rw [hquiet]
    have hopts : (Tokens.mk ts.options ts.ending).options = ts.options := by
      simp [Tokens.options, List.filter_filter]
    have hnil : (Tokens.mk ts.options ts.ending).words = [] := by
      simp [Tokens.options, Tokens.words, List.filter_filter]
    exact ⟨alike_of_filter hopts (hnil.trans hwords.symm) rfl, Or.inl hnil⟩
  · cases hending : ts.ending with
    | done =>
      have hitems := tokenize_items argv hall
      rw [hts, hending] at hitems
      have hargv : tokenize spec strict ts.argv = ⟨ts.options ++ ts.words, .done⟩ := by
        rw [Tokens.argv, hending]
        simpa [Ending.front, Ending.back, List.flatMap_append] using hitems
      rw [hargv]
      exact ⟨alike_of_filter hfilter.1 hfilter.2 hending.symm, Or.inr fun _ _ => nofun⟩
    | dashes rest =>
      have hargv : tokenize spec strict ts.argv =
          ⟨ts.options, .dashes (ts.words.flatMap Item.elements ++ rest)⟩ := by
        have hdashes : tokenize spec strict
            (dashes :: (ts.words.flatMap Item.elements ++ rest)) =
              ⟨[], .dashes (ts.words.flatMap Item.elements ++ rest)⟩ := by
          rw [tokenize.eq_def]
          exact if_pos rfl
        have happend := tokenize_append (fun it hit => isRead_of_mem it (hoptions it hit))
          (dashes :: (ts.words.flatMap Item.elements ++ rest))
        rw [hdashes, List.append_nil] at happend
        rw [Tokens.argv, hending]
        simpa [Ending.front, Ending.back] using happend
      rw [hargv]
      refine ⟨⟨?_, ?_⟩, Or.inr fun _ _ => nofun⟩
      · simp [Tokens.events, Tokens.options, flatMap_events_options, hending, Ending.events]
      · simp [Tokens.argv, Tokens.options, Tokens.words, List.filter_filter, hending, Ending.front,
          Ending.back]
    | missing arg events => exact absurd hending (h.resolve_left hwords arg events)
    | stopped rest =>
      have hstrict : strict = true := strict_of_stopped (by rw [hts]; exact hending)
      subst hstrict
      exact absurd (hts ▸ words_eq_nil argv) hwords

/-! ## A search before the calls -/

theorem any_flatMap_events {items : List (Item ι)} {p : Event ι → Bool} :
    (items.flatMap Item.events).any p = items.any fun it => it.events.any p := by
  rw [List.any_flatMap]

/-- A search that ends early leaves the options and the words of the vector, and its end. -/
theorem filter_callUntil_of_any (p : Event ι → Bool) (argv : List Arg)
    (h : ((tokenize spec strict argv).items.any fun it => it.events.any p) = true) :
    (callUntil spec strict p argv).1 = true ∧
      (tokenize spec strict (callUntil spec strict p argv).2).options =
        (tokenize spec strict argv).options ∧
      (tokenize spec strict (callUntil spec strict p argv).2).words =
        (tokenize spec strict argv).words ∧
      (tokenize spec strict (callUntil spec strict p argv).2).ending =
        (tokenize spec strict argv).ending := by
  unfold callUntil
  dsimp only
  generalize hts : tokenize spec strict argv = ts at h ⊢
  have hsplit := List.takeWhile_append_dropWhile (p := fun it => !it.events.any p) (l := ts.items)
  have hafter : ts.items.dropWhile (fun it => !it.events.any p) ≠ [] := by
    rw [ne_eq, List.dropWhile_eq_nil_iff]
    intro hnone
    obtain ⟨it, hit, hfound⟩ := List.any_eq_true.1 h
    simpa [hfound] using hnone it hit
  generalize ts.items.takeWhile (fun it => !it.events.any p) = before at hsplit ⊢
  generalize ts.items.dropWhile (fun it => !it.events.any p) = after at hsplit hafter ⊢
  obtain ⟨it, after, rfl⟩ := List.exists_cons_of_ne_nil hafter
  refine ⟨rfl, ?_⟩
  rw [List.append_cons] at hsplit
  have hreordered : ∀ x ∈ (before ++ [it]).filter (!·.isWord) ++
      (before ++ [it]).filter (·.isWord) ++ after, x ∈ (tokenize spec strict argv).items := by
    rw [hts, ← hsplit]
    intro x hx
    simp only [List.mem_append, List.mem_filter, List.mem_cons] at hx ⊢
    tauto
  have hitems := tokenize_items argv hreordered
  rw [hts] at hitems
  have hargv : tokenize spec strict ((Tokens.mk (before ++ [it]) .done).argv ++
      after.flatMap Item.elements ++ ts.ending.front ++ ts.ending.back) =
      ⟨(before ++ [it]).filter (!·.isWord) ++ (before ++ [it]).filter (·.isWord) ++ after,
        ts.ending⟩ := by
    rw [← hitems, Tokens.argv]
    simp [Tokens.options, Tokens.words, Ending.front, Ending.back, List.append_assoc]
  rw [hargv]
  refine ⟨?_, ?_, rfl⟩
  · rw [Tokens.options, Tokens.options, ← hsplit, List.filter_append _ after,
      (filter_options_words _).1, ← List.filter_append]
  · rw [Tokens.words, Tokens.words, ← hsplit, List.filter_append _ after,
      (filter_options_words _).2, ← List.filter_append]

/-- A search that ends early leaves a vector that is read alike. -/
theorem tokenize_callUntil_of_any (p : Event ι → Bool) (argv : List Arg)
    (h : ((tokenize spec strict argv).items.any fun it => it.events.any p) = true) :
    (callUntil spec strict p argv).1 = true ∧
      (tokenize spec strict (callUntil spec strict p argv).2).Alike
        (tokenize spec strict argv) := by
  obtain ⟨hsearch, hoptions, hwords, hending⟩ := filter_callUntil_of_any p argv h
  exact ⟨hsearch, alike_of_filter hoptions hwords hending⟩

theorem callUntil_of_any_eq_false {p : Event ι → Bool} {argv : List Arg}
    (h : ((tokenize spec strict argv).items.any fun it => it.events.any p) = false) :
    callUntil spec strict p argv =
      ((tokenize spec strict argv).events.any p, (tokenize spec strict argv).argv) := by
  have hitems : (tokenize spec strict argv).items.dropWhile (fun it => !it.events.any p) = [] := by
    rw [List.dropWhile_eq_nil_iff]
    intro it hit
    simpa using List.any_eq_false.1 h it hit
  unfold callUntil
  dsimp only
  rw [hitems]

theorem tokenize_callUntil (p : Event ι → Bool) (argv : List Arg)
    (h : (tokenize spec strict argv).IsSettled) :
    (callUntil spec strict p argv).1 = (tokenize spec strict argv).events.any p ∧
      (tokenize spec strict (callUntil spec strict p argv).2).Alike
        (tokenize spec strict argv) := by
  cases hany : (tokenize spec strict argv).items.any fun it => it.events.any p with
  | false =>
    rw [callUntil_of_any_eq_false hany]
    exact ⟨rfl, (alike_tokenize_argv argv h).1⟩
  | true =>
    obtain ⟨hsearch, halike⟩ := tokenize_callUntil_of_any p argv hany
    refine ⟨?_, halike⟩
    rw [hsearch, Tokens.events, List.any_append, any_flatMap_events, hany, Bool.true_or]

theorem searchThenCall_of_isSettled (p : Event ι → Bool) (argv : List Arg)
    (h : (tokenize spec strict argv).IsSettled) :
    searchThenCall spec strict p argv =
      ((tokenize spec strict argv).events.any p, (tokenize spec strict argv).events,
        (tokenize spec strict argv).argv) := by
  obtain ⟨hfound, hevents, hargv⟩ := tokenize_callUntil p argv h
  rw [searchThenCall, hfound, hevents, hargv]

theorem searchThenCall_settled (p : Event ι → Bool) (argv : List Arg)
    (h : (tokenize spec strict argv).IsSettled) :
    searchThenCall spec strict p (searchThenCall spec strict p argv).2.2 =
      searchThenCall spec strict p argv := by
  obtain ⟨⟨hevents, hargv⟩, hsettled⟩ := alike_tokenize_argv argv h
  rw [searchThenCall_of_isSettled p argv h, searchThenCall_of_isSettled p _ hsettled, hevents,
    hargv]

/-- An option that lacks its argument takes the first of the words behind it. -/
theorem exists_tokenize_missing {argv : List Arg} {arg : Arg} {events : List (Event ι)}
    (h : (tokenize spec strict argv).ending = .missing arg events) :
    ∃ i, (readElement spec arg).wants = some i ∧ ∀ w r,
      tokenize spec strict (arg :: w :: r) =
        (tokenize spec strict r).cons (.option [arg, w] (events ++ [.option i w])) := by
  fun_induction tokenize spec strict argv with
  | case1 => cases h
  | case2 => cases h
  | case3 => cases h
  | case4 a r hdashes hword hstrict ih => exact ih h
  | case5 a r hdashes hword hwants ih => exact ih h
  | case6 a hdashes hword i hwants b r ih => exact ih h
  | case7 a hdashes hword i hwants =>
    obtain ⟨rfl, rfl⟩ := Ending.missing.inj h
    refine ⟨i, hwants, fun w r => ?_⟩
    rw [tokenize.eq_def]
    dsimp only
    rw [if_neg hdashes, if_neg hword, hwants]

/-- The last option has taken a word, and nothing is missing any more. -/
theorem tokenize_taken {argv : List Arg} {arg w : Arg} {events : List (Event ι)}
    {ws : List (Item ι)} (hending : (tokenize spec strict argv).ending = .missing arg events)
    (hwords : (tokenize spec strict argv).words = .word w :: ws) :
    ∃ i, (readElement spec arg).wants = some i ∧
      tokenize spec strict (tokenize spec strict argv).argv =
        ⟨(tokenize spec strict argv).options ++
          .option [arg, w] (events ++ [.option i w]) :: ws, .done⟩ := by
  obtain ⟨i, hwants, htaken⟩ := exists_tokenize_missing hending
  refine ⟨i, hwants, ?_⟩
  have hread : ∀ it ∈ (tokenize spec strict argv).items, IsRead spec strict it := isRead_of_mem
  generalize tokenize spec strict argv = ts at hwords hending hread ⊢
  have hoptions : ∀ x ∈ ts.options, IsRead spec strict x := fun x hx =>
    hread x (List.mem_filter.1 hx).1
  have hws : ∀ x ∈ ws, IsRead spec strict x := fun x hx =>
    hread x (List.mem_filter.1 (hwords ▸ List.mem_cons_of_mem _ hx : x ∈ ts.words)).1
  have hrest : tokenize spec strict (ws.flatMap Item.elements) = ⟨ws, .done⟩ := by
    have happend := tokenize_append hws []
    simpa [tokenize] using happend
  have hargv : ts.argv = ts.options.flatMap Item.elements ++
      (arg :: w :: ws.flatMap Item.elements) := by
    simp [Tokens.argv, hending, hwords, Ending.front, Ending.back, Item.elements]
  rw [hargv, tokenize_append hoptions, htaken, hrest]
  rfl

theorem flatMap_events_words {items : List (Item ι)} (h : ∀ it ∈ items, it.isWord = true) :
    items.flatMap Item.events = [] := by
  rw [List.flatMap_eq_nil_iff]
  intro it hit
  cases it with
  | option elements events => exact absurd (h _ hit) Bool.false_ne_true
  | word w => rfl

/-- What the calls make of it then. -/
theorem events_argv_taken {argv : List Arg} {arg w : Arg} {events : List (Event ι)}
    {ws : List (Item ι)} (hending : (tokenize spec strict argv).ending = .missing arg events)
    (hwords : (tokenize spec strict argv).words = .word w :: ws) :
    ∃ i, (readElement spec arg).wants = some i ∧
      (tokenize spec strict (tokenize spec strict argv).argv).IsSettled ∧
      (tokenize spec strict (tokenize spec strict argv).argv).events =
        (tokenize spec strict argv).items.flatMap Item.events ++ events ++ [.option i w] ∧
      (tokenize spec strict (tokenize spec strict argv).argv).argv =
        (tokenize spec strict argv).argv := by
  obtain ⟨i, hwants, htokens⟩ := tokenize_taken hending hwords
  have hallWords : ∀ x ∈ ws, x.isWord = true := fun x hx =>
    (List.mem_filter.1
      (hwords ▸ List.mem_cons_of_mem _ hx : x ∈ (tokenize spec strict argv).words)).2
  refine ⟨i, hwants, ?_, ?_, ?_⟩
  · rw [htokens]
    exact Or.inr fun _ _ => nofun
  · rw [htokens, Tokens.events, List.flatMap_append, List.flatMap_cons, Tokens.options,
      flatMap_events_options, flatMap_events_words hallWords]
    simp [Item.events, Ending.events]
  · rw [htokens]
    have hoptions : ws.filter (fun it => !it.isWord) = [] :=
      List.filter_eq_nil_iff.2 fun x hx => by simp [hallWords x hx]
    have hwords' : ws.filter (·.isWord) = ws := List.filter_eq_self.2 hallWords
    simp only [Tokens.argv, Tokens.options, Tokens.words] at hwords ⊢
    simp [List.filter_append, List.filter_filter, hoptions, hwords', hending, hwords, Ending.front,
      Ending.back, Item.elements]

/-- The option that has no argument when the search has ended before it, and the word that stands
behind it afterwards. -/
def leftover (spec : Spec ι) (strict : Bool) (p : Event ι → Bool) (argv : List Arg) :
    Option (ι × Arg) :=
  let ts := tokenize spec strict argv
  match ts.ending, ts.words with
  | .missing arg _, .word w :: _ =>
    if ts.items.any fun it => it.events.any p then
      (readElement spec arg).wants.map fun i => (i, w)
    else none
  | _, _ => none

theorem exists_words_of_not_isSettled {ts : Tokens ι} (h : ¬ ts.IsSettled) :
    ∃ arg events w ws, ts.ending = .missing arg events ∧ ts.words = .word w :: ws := by
  unfold Tokens.IsSettled at h
  push Not at h
  obtain ⟨hwords, arg, events, hending⟩ := h
  obtain ⟨it, ws, hws⟩ := List.exists_cons_of_ne_nil hwords
  have hword : it.isWord = true :=
    (List.mem_filter.1 (hws ▸ List.mem_cons_self : it ∈ ts.words)).2
  cases it with
  | option elements events => exact absurd hword Bool.false_ne_true
  | word w => exact ⟨arg, events, w, ws, hending, hws⟩

/-- What the two loops deliver if the last option lacks its argument and there is a word: it takes the
word if the search has come to the end, or the second time at the latest. -/
theorem searchThenCall_missing (p : Event ι → Bool) {argv : List Arg} {arg w : Arg}
    {events : List (Event ι)} {ws : List (Item ι)}
    (hending : (tokenize spec strict argv).ending = .missing arg events)
    (hwords : (tokenize spec strict argv).words = .word w :: ws) :
    ∃ i taken, (readElement spec arg).wants = some i ∧
      taken = (tokenize spec strict argv).items.flatMap Item.events ++ events ++ [.option i w] ∧
      (searchThenCall spec strict p argv).2 =
        (if (tokenize spec strict argv).items.any fun it => it.events.any p then
          (tokenize spec strict argv).events else taken, (tokenize spec strict argv).argv) ∧
      (searchThenCall spec strict p (tokenize spec strict argv).argv).2.1 = taken := by
  obtain ⟨i, hwants, hsettled, hevents, hargv⟩ := events_argv_taken hending hwords
  refine ⟨i, _, hwants, rfl, ?_, ?_⟩
  · split
    · next hany =>
      obtain ⟨-, hevents', hargv'⟩ := tokenize_callUntil_of_any p argv hany
      rw [searchThenCall, hevents', hargv']
    · next hany =>
      rw [searchThenCall, callUntil_of_any_eq_false (eq_false_of_ne_true hany), hevents,
        hargv]
  · rw [searchThenCall_of_isSettled p _ hsettled, hevents]

/-- **Both loops do the same over the vector that they leave**, if no option is left to take a
word. -/
theorem searchThenCall_again {p : Event ι → Bool} (hinvalid : p .invalid = false)
    (hp : ∀ arg i w, (readElement spec arg).wants = some i → p (.option i w) = false)
    (argv : List Arg) (h : leftover spec strict p argv = none) :
    searchThenCall spec strict p (searchThenCall spec strict p argv).2.2 =
      searchThenCall spec strict p argv := by
  by_cases hsettled : (tokenize spec strict argv).IsSettled
  · exact searchThenCall_settled p argv hsettled
  · obtain ⟨arg, events, w, ws, hending, hwords⟩ := exists_words_of_not_isSettled hsettled
    obtain ⟨i, hwants, hagain, hevents, -⟩ := events_argv_taken hending hwords
    have hnone : ((tokenize spec strict argv).items.any fun it => it.events.any p) = false := by
      unfold leftover at h
      dsimp only at h
      rw [hending, hwords] at h
      dsimp only at h
      rw [hwants] at h
      simpa using h
    -- neither the option nor its lack of an argument is what the search is for
    have hany : (tokenize spec strict argv).events.any p =
        (tokenize spec strict (tokenize spec strict argv).argv).events.any p := by
      rw [hevents, Tokens.events, hending]
      simp [Ending.events, List.any_append, hinvalid, hp arg i w hwants]
    have hfirst : searchThenCall spec strict p argv =
        searchThenCall spec strict p (tokenize spec strict argv).argv := by
      rw [searchThenCall_of_isSettled p _ hagain, ← hany, searchThenCall,
        callUntil_of_any_eq_false hnone]
    rw [hfirst]
    exact searchThenCall_settled p _ hagain

/-- A search that ends early leaves a vector in which the last option has taken a word. -/
theorem searchThenCall_leftover {p : Event ι → Bool} {argv : List Arg} {i : ι} {w : Arg}
    (h : leftover spec strict p argv = some (i, w)) :
    ∃ events argv', searchThenCall spec strict p argv = (true, events ++ [.invalid], argv') ∧
      searchThenCall spec strict p argv' = (true, events ++ [.option i w], argv') := by
  unfold leftover at h
  dsimp only at h
  split at h
  · next arg events w' ws hending hwords =>
    split at h
    · next hany =>
      obtain ⟨i', hwants, hsettled, hevents, hargv⟩ := events_argv_taken hending hwords
      rw [hwants, Option.map_some, Option.some.injEq, Prod.mk.injEq] at h
      obtain ⟨rfl, rfl⟩ := h
      have hfound : ((tokenize spec strict argv).items.flatMap Item.events).any p = true :=
        any_flatMap_events.trans hany
      refine ⟨(tokenize spec strict argv).items.flatMap Item.events ++ events,
        (tokenize spec strict argv).argv, ?_, ?_⟩
      · obtain ⟨hsearch, hevents', hargv'⟩ := tokenize_callUntil_of_any p argv hany
        rw [searchThenCall, hsearch, hevents', hargv', Tokens.events, hending]
        simp [Ending.events]
      · rw [searchThenCall_of_isSettled p _ hsettled, hevents, hargv]
        simp [List.any_append, hfound]
    · cases h
  · cases h

end Getopt

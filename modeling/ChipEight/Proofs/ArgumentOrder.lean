/-
Command lines written in groups of words, one for each setting that is given: the program alone, `-v` alone, and an
option with its value for any other. No text that does not start with a dash is taken for an option, and neither is the
numeral of a negative number (`classify_plain`, `classify_toString`); so the words of a group are told apart the same
wherever the group stands (`words_argsOf`), and reading goes from group to group (`consume_words`). By induction on the
groups each setting ends up as the last group for it says (`consume_all`, `foldl_give`), so that the order of the groups
makes no difference as long as none is repeated (`given_of_perm`). Both together are `parse_reads_back`.
-/
import ChipEight.Proofs.Numerals

namespace ChipEight.CommandLine

/-! ## Groups -/

/-- the settings whose options take a number -/
inductive Numeric where
  | scale
  | cycles
  | seed
  deriving DecidableEq, Repr

namespace Numeric

def switch : Numeric → Switch
  | scale => .scale
  | cycles => .cycles
  | seed => .seed

/-- the option as it is written -/
def spelling : Numeric → String
  | scale => "-s"
  | cycles => "-n"
  | seed => "--seed"

/-- is it a long option -/
def long : Numeric → Bool
  | seed => true
  | _ => false

end Numeric

/-- the words that give one setting; a configuration file may be named behind either spelling of its option -/
inductive Group where
  | rom (text : String)
  | config (long : Bool) (text : String)
  | number (k : Numeric) (n : ℤ)
  | verbose
  deriving DecidableEq, Repr

/-- the text does not start with a dash -/
def Undashed (text : String) : Prop := text.toList.head? ≠ some '-'

instance (text : String) : Decidable (Undashed text) := inferInstanceAs (Decidable (_ ≠ _))

namespace Group

/-- a group as it is written -/
def args : Group → List String
  | rom text => [text]
  | config long text => [if long then "--config" else "-c", text]
  | number k n => [k.spelling, toString n]
  | verbose => ["-v"]

/-- can the group be read back: its text is no option, and its number is not too long to be written -/
def Readable : Group → Prop
  | rom text => Undashed text
  | config _ text => Undashed text
  | number _ n => isLongNumber n = false
  | verbose => True

/-- the words that a group is told apart into -/
def words : Group → List Word
  | rom text => [.plain text]
  | config long text => [.switch .config long none, .plain text]
  | number k n => [.switch k.switch k.long none, .plain (toString n)]
  | verbose => [.switch .verbose false none]

def rom? : Group → Option String
  | rom text => some text
  | _ => none

def config? : Group → Option String
  | config _ text => some text
  | _ => none

def number? (k : Numeric) : Group → Option ℤ
  | number j n => if j = k then some n else none
  | _ => none

end Group

def argsOf (gs : List Group) : List String := gs.flatMap Group.args

/-- the last value that the groups give -/
def lastOf {α : Type} (value? : Group → Option α) (gs : List Group) : Option α := (gs.filterMap value?).getLast?

/-- the options that the groups give: for each setting what the last group for it says, and nothing if there is none -/
def given (gs : List Group) : Options where
  rom := lastOf Group.rom? gs
  config := (lastOf Group.config? gs).map .value
  scale := (lastOf (Group.number? .scale) gs).map .value
  cycles := (lastOf (Group.number? .cycles) gs).map .value
  seed := (lastOf (Group.number? .seed) gs).map .value
  verbose := decide (.verbose ∈ gs)

variable {g : Group} {gs : List Group} {text : String} {w : Word} {ws : List Word} {p : Progress}

/-! ## Words -/

theorem classify_plain (h : Undashed text) : classify text = .ok (.plain text) := by
  unfold classify
  split
  case h_1 ht => exact absurd (by rw [ht]; rfl) h
  case h_2 ht => exact absurd (by rw [ht]; rfl) h
  case h_3 => rfl

/-- no option is spelled with a digit -/
theorem ofLetter?_of_isDigit {c : Char} (hc : c.isDigit = true) : Switch.ofLetter? c = none := by
  have hletter : ∀ e ∈ Switch.spellings, ¬(e.1.toList == ['-', c]) = true := by
    intro e he heq
    have hspelled : e.1.toList = ['-', c] := by simpa using heq
    have hnone : (Switch.spellings.all fun e => (e.1.toList.drop 1).all fun d => !d.isDigit) = true := rfl
    have hfalse := List.all_eq_true.1 (List.all_eq_true.1 hnone e he) c (by rw [hspelled]; simp)
    rw [hc] at hfalse
    cases hfalse
  rw [Switch.ofLetter?, List.find?_eq_none.2 hletter]
  rfl

theorem looksNegative_of_digits {ds : List Char} (hne : ds ≠ []) (hds : ∀ c ∈ ds, c.isDigit = true) :
    looksNegative ('-' :: ds) = true := by
  have hend : dropLineEnd ('-' :: ds) = '-' :: ds := by
    refine if_neg fun hlast => ?_
    rcases List.mem_cons.1 (List.mem_of_getLast? hlast) with h | h
    · exact absurd h (by decide)
    · exact absurd (hds _ h) (by decide)
  have hdigits : isDigits ds = true := by
    have hall : ds.all Text.isDigit = true := by
      refine List.all_eq_true.2 fun c hc => ?_
      rw [Text.isDigit, Text.digitValue?_of_isDigit (hds c hc)]
      rfl
    simp [isDigits, hne, hall]
  simp [looksNegative, hend, hdigits]

/-- a negative number looks like an option, but none is spelled with a digit -/
theorem classify_negative {ds : List Char} (htext : text.toList = '-' :: ds) (hne : ds ≠ [])
    (hds : ∀ c ∈ ds, c.isDigit = true) : classify text = .ok (.plain text) := by
  have hnegative : looksNegative text.toList = true := htext ▸ looksNegative_of_digits hne hds
  obtain ⟨d, r, rfl⟩ := List.exists_cons_of_ne_nil hne
  have hd : d.isDigit = true := hds d List.mem_cons_self
  have hdash : d ≠ '-' := by
    rintro rfl
    exact absurd hd (by decide)
  unfold classify
  split
  -- two dashes would start a long option, but behind the first comes a digit
  case h_1 ht => exact absurd (List.cons.inj (List.cons.inj (htext.symm.trans ht)).2).1 hdash
  case h_2 ht =>
    obtain ⟨rfl, rfl⟩ := List.cons.inj (List.cons.inj (htext.symm.trans ht)).2
    rw [ofLetter?_of_isDigit hd, classifyRest, hnegative]
    rfl
  case h_3 => rfl

theorem classify_toString (n : ℤ) : classify (toString n) = .ok (.plain (toString n)) := by
  have hdigits := Text.isDigit_toDigits n.natAbs
  have htext := Text.toList_toString n
  split_ifs at htext with h
  · refine classify_plain fun hdash => ?_
    rw [htext] at hdash
    exact absurd (hdigits _ (List.mem_of_head? hdash)) (by decide)
  · exact classify_negative htext Nat.toDigits_ne_nil hdigits

theorem words_cons {rest : List String} (hw : classify text = .ok w) (hrest : words rest = .ok ws) :
    words (text :: rest) = .ok (w :: ws) := by
  -- the separator has no kind of its own: it would be the start of two long options
  have hsep : text ≠ "--" := by
    rintro rfl
    cases hw
  rw [words, if_neg hsep, hw, hrest]
  rfl

theorem words_args (hg : g.Readable) {rest : List String} (hrest : words rest = .ok ws) :
    words (g.args ++ rest) = .ok (g.words ++ ws) := by
  cases g with
  | rom text => exact words_cons (classify_plain hg) hrest
  | config long text => cases long <;> exact words_cons rfl (words_cons (classify_plain hg) hrest)
  | number k n => cases k <;> exact words_cons rfl (words_cons (classify_toString n) hrest)
  | verbose => exact words_cons rfl hrest

/-- by induction on the groups -/
theorem words_argsOf (h : ∀ g ∈ gs, g.Readable) : words (argsOf gs) = .ok (gs.flatMap Group.words) := by
  induction gs with
  | nil => rfl
  | cons g gs ih =>
    obtain ⟨hg, hgs⟩ := List.forall_mem_cons.1 h
    exact words_args hg (ih hgs)

/-! ## Reading -/

/-- options to which a group is added -/
def Options.give (o : Options) : Group → Options
  | .rom text => { o with rom := some text }
  | .config _ text => { o with config := some (.value text) }
  | .number .scale n => { o with scale := some (.value n) }
  | .number .cycles n => { o with cycles := some (.value n) }
  | .number .seed n => { o with seed := some (.value n) }
  | .verbose => { o with verbose := true }

/-- how far the reading has come behind a further group -/
def Progress.take (p : Progress) (g : Group) : Progress :=
  { p with options := p.options.give g, placed := g.rom?.isSome || p.placed }

/-- an option that wants a value takes the plain word behind it -/
theorem consume_value {s : Switch} {long : Bool} {q : Progress}
    (hs : bundleOf s long none = .ok { tail := .wants s }) (hq : p.use s (.value text) = .ok q) :
    consume (.switch s long none :: .plain text :: ws) p = consume ws q := by
  simp only [consume, hs, Progress.raise, List.foldlM_nil]
  show (p.use s (.value text)).bind (consume ws) = consume ws q
  rw [hq]
  rfl

theorem consume_plain (hws : .separator ∉ ws) : consume (.plain text :: ws) p = consume ws (p.place text) := by
  cases ws with
  | nil => rfl
  | cons w ws =>
    cases w with
    | separator => exact absurd List.mem_cons_self hws
    | _ => rfl

theorem use_number {k : Numeric} {n : ℤ} (hn : isLongNumber n = false) :
    p.use k.switch (.value (toString n)) = .ok (p.take (.number k n)) := by
  have hread (s : Switch) : readGiven s (.value (toString n)) = .ok (.value n) := by
    rw [readGiven, readNumber, Text.readInt_toString hn]
    rfl
  cases k
  all_goals
    simp only [Progress.use, Numeric.switch, Options.use, hread]
    rfl

theorem consume_words (hg : g.Readable) (hrom : g.rom?.isSome → p.placed = false) (hws : .separator ∉ ws) :
    consume (g.words ++ ws) p = consume ws (p.take g) := by
  cases g with
  | rom text =>
    have hplace : p.place text = p.take (.rom text) := by
      rw [Progress.place, hrom rfl]
      rfl
    exact (consume_plain hws).trans (by rw [hplace])
  | config long text => exact consume_value rfl rfl
  | number k n => exact consume_value (by cases k <;> rfl) (use_number hg)
  | verbose => rfl

theorem not_separator_mem_words (gs : List Group) : .separator ∉ gs.flatMap Group.words := by
  intro hmem
  obtain ⟨g, -, hg⟩ := List.mem_flatMap.1 hmem
  cases g <;> simp [Group.words] at hg

/-- by induction on the groups; the program is named only once -/
theorem consume_all (h : ∀ g ∈ gs, g.Readable) (hone : (gs.filterMap Group.rom?).length ≤ 1)
    (hplaced : p.placed = true → gs.filterMap Group.rom? = []) :
    consume (gs.flatMap Group.words) p = .ok (gs.foldl Progress.take p) := by
  induction gs generalizing p with
  | nil => rfl
  | cons g gs ih =>
    obtain ⟨hg, hgs⟩ := List.forall_mem_cons.1 h
    rw [List.filterMap_cons] at hone hplaced
    have hrom : g.rom?.isSome → p.placed = false := by
      intro hsome
      obtain ⟨text, htext⟩ := Option.isSome_iff_exists.1 hsome
      rw [htext] at hplaced
      exact Bool.eq_false_of_not_eq_true fun hp => List.cons_ne_nil _ _ (hplaced hp)
    rw [List.flatMap_cons, consume_words hg hrom (not_separator_mem_words gs), List.foldl_cons]
    cases hr : g.rom? with
    | none =>
      simp only [hr] at hone hplaced
      refine ih hgs hone fun hp => hplaced ?_
      simpa [Progress.take, hr] using hp
    | some text =>
      simp only [hr, List.length_cons] at hone
      have hnone : gs.filterMap Group.rom? = [] := List.length_eq_zero_iff.1 (by omega)
      exact ih hgs (by simp [hnone]) fun _ => hnone

theorem foldl_take (gs : List Group) (p : Progress) :
    (gs.foldl Progress.take p).options = gs.foldl Options.give p.options ∧
      (gs.foldl Progress.take p).unused = p.unused := by
  induction gs generalizing p with
  | nil => exact ⟨rfl, rfl⟩
  | cons g gs ih => exact ih (p.take g)

/-! ## Settings -/

theorem lastOf_concat {α : Type} (value? : Group → Option α) (gs : List Group) (g : Group) :
    lastOf value? (gs ++ [g]) = (value? g).or (lastOf value? gs) := by
  unfold lastOf
  rw [List.filterMap_append, List.getLast?_append]
  cases h : value? g <;> simp [h]

/-- by induction on the groups, the last one first: it has the say for its own setting, and none for the others -/
theorem foldl_give (gs : List Group) : gs.foldl Options.give {} = given gs := by
  induction gs using List.reverseRecOn with
  | nil => rfl
  | append_singleton gs g ih =>
    rw [List.foldl_concat, ih]
    simp only [given, lastOf_concat]
    cases g with
    | number k n => cases k <;> simp [Options.give, Group.rom?, Group.config?, Group.number?]
    | _ => simp [Options.give, Group.rom?, Group.config?, Group.number?]

theorem parse_argsOf (h : ∀ g ∈ gs, g.Readable) (hone : (gs.filterMap Group.rom?).length ≤ 1) :
    parse (argsOf gs) = .ok (given gs) := by
  obtain ⟨hoptions, hunused⟩ := foldl_take gs {}
  have hconsume : consume (gs.flatMap Group.words) {} = .ok (gs.foldl Progress.take {}) :=
    consume_all h hone fun hp => Bool.noConfusion hp
  simp only [parse, words_argsOf h, hconsume, hunused, hoptions, foldl_give]
  rfl

/-! ## Orders -/

/-- what is chosen for each setting, if anything -/
structure Choices where
  rom : Option String := none
  config : Option String := none
  scale : Option ℤ := none
  cycles : Option ℤ := none
  seed : Option ℤ := none
  verbose : Bool := false

namespace Choices

variable {c : Choices} {long : Bool}

/-- a group for each setting that something is chosen for -/
def groups (c : Choices) (long : Bool) : List Group :=
  c.rom.toList.map .rom ++ c.config.toList.map (.config long) ++ c.scale.toList.map (.number .scale) ++
    c.cycles.toList.map (.number .cycles) ++ c.seed.toList.map (.number .seed) ++
    if c.verbose then [.verbose] else []

/-- the options that say exactly what is chosen -/
def options (c : Choices) : Options where
  rom := c.rom
  config := c.config.map .value
  scale := c.scale.map .value
  cycles := c.cycles.map .value
  seed := c.seed.map .value
  verbose := c.verbose

/-- no text that is chosen starts with a dash, and no number is too long to be written -/
structure Readable (c : Choices) : Prop where
  rom : ∀ text, c.rom = some text → Undashed text
  config : ∀ text, c.config = some text → Undashed text
  scale : ∀ n, c.scale = some n → isLongNumber n = false
  cycles : ∀ n, c.cycles = some n → isLongNumber n = false
  seed : ∀ n, c.seed = some n → isLongNumber n = false

theorem Readable.of_mem (h : c.Readable) (hg : g ∈ c.groups long) : g.Readable := by
  simp only [groups, List.mem_append, List.mem_map, Option.mem_toList, List.mem_ite_nil_right] at hg
  rcases hg with ((((⟨text, ht, rfl⟩ | ⟨text, ht, rfl⟩) | ⟨n, hn, rfl⟩) | ⟨n, hn, rfl⟩) | ⟨n, hn, rfl⟩) | ⟨-, hv⟩
  · exact h.rom text ht
  · exact h.config text ht
  · exact h.scale n hn
  · exact h.cycles n hn
  · exact h.seed n hn
  · rw [List.mem_singleton.1 hv]
    trivial

theorem filterMap_toList_map {α β : Type} (value? : Group → Option β) (group : α → Group) (o : Option α) :
    (o.toList.map group).filterMap value? = (o.bind fun a => value? (group a)).toList := by
  cases o with
  | none => rfl
  | some a => cases h : value? (group a) <;> simp [h]

/-- a group says what is chosen for its own setting -/
theorem filterMap_groups {β : Type} (value? : Group → Option β) (hverbose : value? .verbose = none) (c : Choices)
    (long : Bool) :
    (c.groups long).filterMap value? =
      (c.rom.bind fun text => value? (.rom text)).toList ++
        (c.config.bind fun text => value? (.config long text)).toList ++
        (c.scale.bind fun n => value? (.number .scale n)).toList ++
        (c.cycles.bind fun n => value? (.number .cycles n)).toList ++
        (c.seed.bind fun n => value? (.number .seed n)).toList := by
  have hflag : (if c.verbose then [Group.verbose] else []).filterMap value? = [] := by
    split_ifs
    · simp [hverbose]
    · rfl
  simp only [groups, List.filterMap_append, filterMap_toList_map, hflag, List.append_nil]

theorem lastOf_of_perm {α : Type} {value? : Group → Option α} {o : Option α} (h : gs.Perm (c.groups long))
    (ho : (c.groups long).filterMap value? = o.toList) : lastOf value? gs = o := by
  have hperm : (gs.filterMap value?).Perm o.toList := ho ▸ h.filterMap value?
  unfold lastOf
  cases o with
  | none => rw [List.perm_nil.1 hperm]; rfl
  | some a => rw [List.perm_singleton.1 hperm]; rfl

theorem filterMap_rom? (c : Choices) (long : Bool) : (c.groups long).filterMap Group.rom? = c.rom.toList := by
  simp [filterMap_groups Group.rom? rfl, Group.rom?]

theorem given_of_perm (h : gs.Perm (c.groups long)) : given gs = c.options := by
  have hrom : lastOf Group.rom? gs = c.rom := lastOf_of_perm h (c.filterMap_rom? long)
  have hconfig : lastOf Group.config? gs = c.config :=
    lastOf_of_perm h (by simp [filterMap_groups Group.config? rfl, Group.config?])
  have hscale : lastOf (Group.number? .scale) gs = c.scale :=
    lastOf_of_perm h (by simp [filterMap_groups (Group.number? .scale) rfl, Group.number?])
  have hcycles : lastOf (Group.number? .cycles) gs = c.cycles :=
    lastOf_of_perm h (by simp [filterMap_groups (Group.number? .cycles) rfl, Group.number?])
  have hseed : lastOf (Group.number? .seed) gs = c.seed :=
    lastOf_of_perm h (by simp [filterMap_groups (Group.number? .seed) rfl, Group.number?])
  have hverbose : decide (.verbose ∈ gs) = c.verbose := by
    cases hv : c.verbose <;> simp [h.mem_iff, groups, hv]
  simp only [given, options, hrom, hconfig, hscale, hcycles, hseed, hverbose]

end Choices

/-! ## Main result -/

/-- **A command line reads back what was written, in any order.** Choose a program and a configuration file by names
that do not start with a dash, numbers of either sign that are not too long to be written, and whether to be verbose,
or leave out any of these. Put the groups for the choices that were made in any order: what is read are exactly these
choices, and nothing for the rest. Groups may be repeated, other than the name of the program: then each setting is what
the last group for it says. -/
theorem parse_reads_back :
    (∀ c : Choices, c.Readable → ∀ long gs, gs.Perm (c.groups long) → parse (argsOf gs) = .ok c.options) ∧
    ∀ gs : List Group, (∀ g ∈ gs, g.Readable) → (gs.filterMap Group.rom?).length ≤ 1 →
      parse (argsOf gs) = .ok (given gs) := by
  refine ⟨fun c hc long gs h => ?_, fun gs hgs hone => parse_argsOf hgs hone⟩
  have hgs : ∀ g ∈ gs, g.Readable := fun g hg => hc.of_mem (h.subset hg)
  have hone : (gs.filterMap Group.rom?).length ≤ 1 := by
    rw [(h.filterMap Group.rom?).length_eq, c.filterMap_rom? long]
    exact Option.length_toList_le
  rw [parse_argsOf hgs hone, Choices.given_of_perm h]

theorem isLongNumber_of_lt_ten {i : ℤ} (h : i.natAbs < 10) : isLongNumber i = false := by
  have hpos : Text.digitBound ≠ 0 := by decide
  simp only [isLongNumber, decide_eq_false_iff_not, not_le]
  generalize Text.digitBound = bound at hpos ⊢
  exact Nat.lt_of_lt_of_le h (Nat.le_self_pow hpos 10)

/-- a negative number and an empty name between options, in another order than that of the choices; and a scale and a
configuration file that are given twice -/
theorem parse_reads_back_of_shuffled :
    let c : Choices := { rom := some "a rom", config := some "", scale := some (-2), seed := some 7, verbose := true }
    let gs : List Group := [.number .seed 7, .verbose, .number .scale (-2), .rom "a rom", .config true ""]
    let twice : List Group := [.number .scale 3, .config false "", .rom "3", .number .scale (-4), .config true "a=b"]
    c.Readable ∧ gs.Perm (c.groups true) ∧
      parse ["--seed", "7", "-v", "-s", "-2", "a rom", "--config", ""] = .ok c.options ∧
      (∀ g ∈ twice, g.Readable) ∧ (twice.filterMap Group.rom?).length ≤ 1 ∧
      parse ["-s", "3", "-c", "", "3", "-s", "-4", "--config", "a=b"] =
        .ok { rom := some "3", config := some (.value "a=b"), scale := some (.value (-4)) } := by
  intro c gs twice
  have hc : c.Readable := by
    constructor
    case rom | config => rintro _ ⟨⟩; decide
    case scale => rintro _ ⟨⟩; exact isLongNumber_of_lt_ten (by decide)
    case cycles => rintro _ ⟨⟩
    case seed => rintro _ ⟨⟩; exact isLongNumber_of_lt_ten (by decide)
  have hgs : gs.Perm (c.groups true) := by decide
  have htwice : ∀ g ∈ twice, g.Readable := by
    intro g hg
    simp only [twice, List.mem_cons, List.not_mem_nil, or_false] at hg
    rcases hg with rfl | rfl | rfl | rfl | rfl
    · exact isLongNumber_of_lt_ten (i := 3) (by decide)
    · exact show Undashed "" by decide
    · exact show Undashed "3" by decide
    · exact isLongNumber_of_lt_ten (i := -4) (by decide)
    · exact show Undashed "a=b" by decide
  have hone : (twice.filterMap Group.rom?).length ≤ 1 := by decide
  obtain ⟨hchosen, hgiven⟩ := parse_reads_back
  exact ⟨hc, hgs, hchosen c hc true gs hgs, htwice, hone, hgiven twice htwice hone⟩

end ChipEight.CommandLine

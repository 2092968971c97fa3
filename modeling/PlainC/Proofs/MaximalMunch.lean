import PlainC.Proofs.Lexing
import PlainC.Proofs.Utf8
import Mathlib.Order.Bounds.Basic

/-!
# Maximal munch

Lexing leaves no choice. Its lexemes tile the text, and each of them is settled by what the rules
describe: it is the longest beginning of what remains that some rule describes, with the kind of the
first such rule. Where there is none, it is the longest beginning that can still grow into a text which
is described. Bytes can break off inside a character, and characters beyond ASCII are all alike to the
rules; so bytes that can still grow can do so to the end of the character.
-/

namespace PlainC

namespace Pattern

variable {p q : Pattern} {s t : Text} {c d : Char}

/-! ### Matching as a computation -/

/-- Whether a text is described, found by deriving along it. -/
def accepts : Pattern → Text → Bool
  | p, [] => p.nullable
  | p, c :: text => (p.derive c).accepts text

theorem accepts_iff : p.accepts s ↔ Matches p s := by
  induction s generalizing p with
  | nil => exact nullable_iff
  | cons c s ih => exact ih.trans matches_derive_iff

/-! ### Characters beyond ASCII -/

/-- Whether no set of the pattern tells one character beyond ASCII from another. -/
def asciiBounded : Pattern → Bool
  | fail => true
  | done => true
  | char set => set.ranges.all fun range => range.2.toNat < 128
  | seq p q => p.asciiBounded && q.asciiBounded
  | alt p q => p.asciiBounded && q.asciiBounded
  | star p => p.asciiBounded

theorem mem_eq_negated {set : CharSet} (hbounded : (char set).asciiBounded) (hc : 128 ≤ c.toNat) :
    set.mem c = set.negated := by
  rw [CharSet.mem, List.any_eq_false.mpr, Bool.bne_false]
  intro range hrange hmem
  rw [asciiBounded, List.all_eq_true] at hbounded
  have hlast : range.2.toNat < 128 := of_decide_eq_true (hbounded range hrange)
  rw [Bool.and_eq_true, decide_eq_true_eq, decide_eq_true_eq] at hmem
  have hle : c.toNat ≤ range.2.toNat := hmem.2
  omega

theorem derive_eq_of_wide (hbounded : p.asciiBounded) (hc : 128 ≤ c.toNat) (hd : 128 ≤ d.toNat) :
    p.derive c = p.derive d := by
  induction p with
  | fail => rfl
  | done => rfl
  | char set => rw [derive, derive, mem_eq_negated hbounded hc, mem_eq_negated hbounded hd]
  | seq p q ihp ihq =>
      rw [asciiBounded, Bool.and_eq_true] at hbounded
      rw [derive, derive, ihp hbounded.1, ihq hbounded.2]
  | alt p q ihp ihq =>
      rw [asciiBounded, Bool.and_eq_true] at hbounded
      rw [derive, derive, ihp hbounded.1, ihq hbounded.2]
  | star p ih => rw [derive, derive, ih hbounded]

theorem asciiBounded_either (hp : p.asciiBounded) (hq : q.asciiBounded) :
    (either p q).asciiBounded := by
  unfold either
  split
  · exact hq
  · exact hp
  · rw [asciiBounded, hp, hq, Bool.and_self]

theorem asciiBounded_andThen (hp : p.asciiBounded) (hq : q.asciiBounded) :
    (andThen p q).asciiBounded := by
  unfold andThen
  split
  · rfl
  · exact hq
  · rw [asciiBounded, hp, hq, Bool.and_self]

theorem asciiBounded_derive (hbounded : p.asciiBounded) : (p.derive c).asciiBounded := by
  induction p with
  | fail => rfl
  | done => rfl
  | char set =>
      rw [derive]
      split <;> rfl
  | seq p q ihp ihq =>
      rw [asciiBounded, Bool.and_eq_true] at hbounded
      have hfirst := asciiBounded_andThen (ihp hbounded.1) hbounded.2
      rw [derive]
      split
      · exact asciiBounded_either hfirst (ihq hbounded.2)
      · exact hfirst
  | alt p q ihp ihq =>
      rw [asciiBounded, Bool.and_eq_true] at hbounded
      exact asciiBounded_either (ihp hbounded.1) (ihq hbounded.2)
  | star p ih => exact asciiBounded_andThen (ih hbounded) hbounded

/-- One character beyond ASCII may stand for another. -/
theorem matches_of_wide (hbounded : p.asciiBounded) (hc : 128 ≤ c.toNat) (hd : 128 ≤ d.toNat)
    (hmatches : Matches p (s ++ d :: t)) : Matches p (s ++ c :: t) := by
  induction s generalizing p with
  | nil =>
      rw [List.nil_append, ← matches_derive_iff] at hmatches ⊢
      rwa [derive_eq_of_wide hbounded hc hd]
  | cons e s ih =>
      rw [List.cons_append, ← matches_derive_iff] at hmatches ⊢
      exact ih (asciiBounded_derive hbounded) hmatches

end Pattern

namespace Token

/-- That some rule describes a text. -/
def IsDescribed (text : Text) : Prop := ∃ rule ∈ rules, rule.2.Matches text

/-- That bytes begin the bytes of a text that is described. -/
def CanGrow (bytes : Bytes) : Prop := ∃ text, IsDescribed text ∧ bytes <+: Text.toBytes text

/-- What a lexeme at the start of a text must be. -/
structure IsMunched (rest : Text) (kind : Option TokenKind) (first : Text) : Prop where
  /-- A kind is that of a pattern which describes the lexeme. -/
  described : ∀ known, kind = some known →
    ∃ pattern, (known, pattern) ∈ rules ∧ pattern.Matches first
  /-- No longer beginning is described. -/
  longest : kind ≠ none → ∀ other, other <+: rest → IsDescribed other →
    Text.byteLength other ≤ Text.byteLength first
  /-- The keywords are never identifiers. -/
  static_iff : kind = some .staticKeyword ↔ first = "static".toList
  typedef_iff : kind = some .typedefKeyword ↔ first = "typedef".toList
  /-- There is no kind exactly where no beginning is described. -/
  none_iff : kind = none ↔ ∀ other, other <+: rest → other ≠ [] → ¬IsDescribed other
  /-- Without a kind, the lexeme has the bytes that can grow, one at least, and goes on to the end of the
  last character. -/
  open_end : kind = none → ∃ n,
    IsGreatest {m | m ≤ (Text.toBytes rest).length ∧ CanGrow ((Text.toBytes rest).take m)} n ∧
    IsLeast {m | max 1 n ≤ m ∧ (Text.cut? m rest).isSome} (Text.byteLength first)

theorem asciiBounded_rules : ∀ rule ∈ rules, rule.2.asciiBounded := by
  decide

/-- What can grow in bytes can grow in characters. -/
theorem isDescribed_of_canGrow {front rest : Text} {c : Char} {bytes : Bytes}
    (hbytes : bytes <+: Text.toBytes (front ++ c :: rest))
    (hlength : Text.byteLength front < bytes.length) (hgrow : CanGrow bytes) :
    ∃ growth, IsDescribed (front ++ c :: growth) := by
  obtain ⟨text, ⟨rule, hrule, hmatches⟩, hbegins⟩ := hgrow
  -- The bytes are those of the front and the first one of the character, at least.
  obtain ⟨byte, more, hcons, hc⟩ := Text.exists_charBytes_eq_cons c
  obtain ⟨tail, rfl⟩ : ∃ tail, bytes = Text.toBytes front ++ byte :: tail := by
    obtain ⟨behind, hbehind⟩ := hbytes
    rw [Text.toBytes_append, Text.toBytes_cons, hcons, List.cons_append] at hbehind
    rw [← Text.length_toBytes] at hlength
    rcases List.append_eq_append_iff.mp hbehind with ⟨between, hfront, -⟩ | ⟨between, rfl, hrest⟩
    · rw [hfront, List.length_append] at hlength
      omega
    · cases between with
      | nil => simp at hlength
      | cons first tail =>
          obtain ⟨rfl, -⟩ := List.cons.inj hrest
          exact ⟨tail, rfl⟩
  obtain ⟨d, growth, others, rfl, hd⟩ := Text.exists_of_toBytes_append hbegins
  obtain ⟨byte', more', hcons', hd'⟩ := Text.exists_charBytes_eq_cons d
  obtain ⟨rfl, -⟩ := List.cons.inj (hd.symm.trans hcons')
  refine ⟨growth, rule, hrule, ?_⟩
  rcases hc with ⟨hsame, hascii⟩ | ⟨hwide, hc⟩
  · have hnat : d.toNat = c.toNat := by omega
    rwa [← Char.toNat_inj.mp hnat]
  · exact Pattern.matches_of_wide (asciiBounded_rules rule hrule) hc (by omega) hmatches

end Token

namespace Lexer

/-! ### One lexeme -/

section Reach

variable {rules : List (TokenKind × Pattern)} {text growth : Text} {kind other : TokenKind}
  {pattern : Pattern} {m n : Nat}

/-- No beginning beyond the longest one is described. -/
theorem le_of_reach_longest (hreach : (reach rules text).longest = some (kind, n))
    (hrule : (other, pattern) ∈ rules) (hm : m ≤ text.length)
    (hmatches : pattern.Matches (text.take m)) : m ≤ n := by
  induction text generalizing rules pattern m n with
  | nil => exact Nat.le_trans hm (Nat.zero_le n)
  | cons c text ih =>
      cases m with
      | zero => exact Nat.zero_le n
      | succ m =>
          have hmem := mem_step hrule hmatches
          rw [reach] at hreach
          split at hreach <;> rename_i hstep
          · rw [hstep] at hmem
            cases hmem
          · have hbeyond : pattern.derive c |>.Matches (text.take m) :=
              Pattern.matches_derive_iff.mpr hmatches
            simp only [Option.or_eq_some_iff, Option.map_eq_some_iff] at hreach
            rcases hreach with ⟨⟨kind', k⟩, hlongest, heq⟩ | ⟨hnone, -⟩
            · cases heq
              exact Nat.succ_le_succ (ih hlongest hmem (Nat.le_of_succ_le_succ hm) hbeyond)
            · exact absurd hbeyond
                (not_matches_of_reach_longest (Option.map_eq_none_iff.mp hnone) hmem m)

/-- The kind of the longest beginning is that of the first rule which describes it. -/
theorem find?_of_reach_longest (hreach : (reach rules text).longest = some (kind, n)) :
    (rules.find? fun rule => rule.2.accepts (text.take n)).map Prod.fst = some kind := by
  have hhere : ∀ {rules : List (TokenKind × Pattern)} {text : Text} {n : Nat},
      (accepted rules).map (·, 0) = some (kind, n) →
        (rules.find? fun rule => rule.2.accepts (text.take n)).map Prod.fst = some kind := by
    intro rules text n haccepted
    obtain ⟨kind', hkind, heq⟩ := Option.map_eq_some_iff.mp haccepted
    cases heq
    exact hkind
  induction text generalizing rules n with
  | nil => exact hhere hreach
  | cons c text ih =>
      rw [reach] at hreach
      split at hreach
      · exact hhere hreach
      · simp only [Option.or_eq_some_iff, Option.map_eq_some_iff] at hreach
        rcases hreach with ⟨⟨kind', k⟩, hlongest, heq⟩ | ⟨-, haccepted⟩
        · cases heq
          -- A derived rule that accepts is viable, so dropping the others passes over none.
          have hfound := ih hlongest
          rw [step, List.find?_filter, List.find?_map, Option.map_map] at hfound
          rw [← hfound]
          refine congrArg₂ Option.map rfl (congrArg (rules.find? ·) (funext fun rule => ?_))
          by_cases haccepts : (rule.2.derive c).accepts (text.take k)
          · have hviable := Pattern.viable_of_matches (Pattern.accepts_iff.mp haccepts)
            simp [Pattern.accepts, haccepts, hviable]
          · simp [Pattern.accepts, haccepts]
        · exact hhere (Option.map_eq_some_iff.mpr haccepted)

/-- What can grow into a text that is described was reached. -/
theorem le_reach_viable (hrule : (other, pattern) ∈ rules) (hm : m ≤ text.length)
    (hmatches : pattern.Matches (text.take m ++ growth)) : m ≤ (reach rules text).viable := by
  induction text generalizing rules pattern m with
  | nil => exact Nat.le_trans hm (Nat.zero_le _)
  | cons c text ih =>
      cases m with
      | zero => exact Nat.zero_le _
      | succ m =>
          have hmem := mem_step hrule hmatches
          rw [reach]
          split <;> rename_i hstep
          · rw [hstep] at hmem
            cases hmem
          · exact Nat.succ_le_succ (ih hmem (Nat.le_of_succ_le_succ hm)
              (Pattern.matches_derive_iff.mpr hmatches))

theorem reach_viable_le : (reach rules text).viable ≤ text.length := by
  induction text generalizing rules with
  | nil => exact Nat.le_refl 0
  | cons c text ih =>
      rw [reach]
      split
      · exact Nat.zero_le _
      · exact Nat.succ_le_succ ih

end Reach

section Munch

variable {rest : Text}

theorem longest_of_munch {kind : TokenKind} (hkind : (munch rest).1 = some kind) :
    (reach Token.rules rest).longest = some (kind, (munch rest).2) := by
  rw [munch] at hkind ⊢
  split at hkind <;> rename_i hlongest
  · cases hkind
    exact hlongest
  · cases hkind

theorem take_munch_ne_nil (hne : rest ≠ []) : rest.take (munch rest).2 ≠ [] := by
  rw [ne_eq, List.take_eq_nil_iff, not_or]
  exact ⟨Nat.ne_of_gt (munch_pos rest), hne⟩

/-- Every beginning that is described lies within the first lexeme. -/
theorem prefix_take_munch {other : Text} (hkind : (munch rest).1 ≠ none) (hother : other <+: rest)
    (hdescribed : Token.IsDescribed other) : other <+: rest.take (munch rest).2 := by
  obtain ⟨kind, hkind⟩ := Option.ne_none_iff_exists'.mp hkind
  obtain ⟨rule, hrule, hmatches⟩ := hdescribed
  have htake : other = rest.take other.length := List.prefix_iff_eq_take.mp hother
  have hle : other.length ≤ (munch rest).2 := by
    rw [htake] at hmatches
    exact le_of_reach_longest (longest_of_munch hkind) hrule hother.length_le hmatches
  rw [htake]
  exact List.take_prefix_take_left hle

theorem munch_fst_eq_none_iff (hne : rest ≠ []) :
    (munch rest).1 = none ↔ ∀ other, other <+: rest → other ≠ [] → ¬Token.IsDescribed other := by
  constructor
  · rintro hkind other hother - ⟨rule, hrule, hmatches⟩
    rw [List.prefix_iff_eq_take.mp hother] at hmatches
    exact not_matches_of_munch hkind hrule _ hmatches
  · intro hnone
    by_contra hkind
    obtain ⟨kind, hkind⟩ := Option.ne_none_iff_exists'.mp hkind
    obtain ⟨pattern, hrule, hmatches⟩ := exists_of_munch hkind
    exact hnone _ (List.take_prefix _ _) (take_munch_ne_nil hne) ⟨_, hrule, hmatches⟩

/-- A word has its own kind if that is the kind of the first rule to describe it. -/
theorem munch_fst_eq_some_iff {word : Text} {kind : TokenKind} (hne : rest ≠ [])
    (hrule : ∀ {pattern}, (kind, pattern) ∈ Token.rules → pattern = .literal word)
    (hfirst : (Token.rules.find? fun rule => rule.2.accepts word).map Prod.fst = some kind) :
    (munch rest).1 = some kind ↔ rest.take (munch rest).2 = word := by
  constructor
  · intro hkind
    obtain ⟨pattern, hmem, hmatches⟩ := exists_of_munch hkind
    rw [hrule hmem] at hmatches
    exact Pattern.matches_literal_iff.mp hmatches
  · intro hword
    obtain ⟨rule, hfind, -⟩ := Option.map_eq_some_iff.mp hfirst
    have haccepts := List.find?_some hfind
    have hdescribed : Token.IsDescribed (rest.take (munch rest).2) :=
      ⟨rule, List.mem_of_find?_eq_some hfind, hword ▸ Pattern.accepts_iff.mp haccepts⟩
    cases hkind : (munch rest).1 with
    | none =>
        exact absurd hdescribed ((munch_fst_eq_none_iff hne).mp hkind _ (List.take_prefix _ _)
          (take_munch_ne_nil hne))
    | some other =>
        have hother := find?_of_reach_longest (longest_of_munch hkind)
        rw [hword, hfirst] at hother
        exact hother.symm

/-- The bytes that can grow are those of the characters that were reached. -/
theorem isGreatest_canGrow (rest : Text) :
    IsGreatest {m | m ≤ (Text.toBytes rest).length ∧ Token.CanGrow ((Text.toBytes rest).take m)}
      (Text.byteLength (rest.take (reach Token.rules rest).viable)) := by
  generalize hreached : (reach Token.rules rest).viable = reached
  have hbytes : Text.toBytes rest =
      Text.toBytes (rest.take reached) ++ Text.toBytes (rest.drop reached) := by
    rw [← Text.toBytes_append, List.take_append_drop]
  constructor
  · refine ⟨?_, ?_⟩
    · rw [hbytes, List.length_append, Text.length_toBytes]
      exact Nat.le_add_right _ _
    · obtain ⟨kind, pattern, growth, hrule, hmatches⟩ :=
        @exists_of_reach_viable _ rest occupied_rules viable_rules
      rw [hreached] at hmatches
      refine ⟨_, ⟨_, hrule, hmatches⟩, ?_⟩
      rw [hbytes, ← Text.length_toBytes, List.take_left, Text.toBytes_append]
      exact List.prefix_append _ _
  · rintro m ⟨hm, hgrow⟩
    by_contra hlt
    rw [Nat.not_le] at hlt
    -- Bytes beyond what was reached begin the next character, which could then be reached too.
    cases hdrop : rest.drop reached with
    | nil =>
        rw [hbytes, hdrop, List.length_append, Text.length_toBytes] at hm
        exact absurd hlt (Nat.not_lt_of_le hm)
    | cons c behind =>
        have hrest : rest = rest.take reached ++ c :: behind := by
          rw [← hdrop, List.take_append_drop]
        have hbegins : (Text.toBytes rest).take m <+: Text.toBytes (rest.take reached ++ c :: behind) := by
          rw [← hrest]
          exact List.take_prefix m _
        obtain ⟨growth, rule, hrule, hmatches⟩ := Token.isDescribed_of_canGrow hbegins
          (by rwa [List.length_take, Nat.min_eq_left hm]) hgrow
        have hlength : reached + 1 ≤ rest.length := by
          have hdropped := congrArg List.length hdrop
          rw [List.length_drop, List.length_cons] at hdropped
          omega
        have htake : rest.take (reached + 1) = rest.take reached ++ [c] := by
          rw [List.take_add_one, ← List.head?_drop, hdrop]
          rfl
        have hgrown : rule.2.Matches (rest.take (reached + 1) ++ growth) := by
          rw [htake, List.append_assoc]
          exact hmatches
        have hle := le_reach_viable hrule hlength hgrown
        omega

/-- Beginnings of one text have their bytes in the order of their lengths. -/
theorem byteLength_take_le {text : Text} {m n : Nat} (hle : m ≤ n) :
    Text.byteLength (text.take m) ≤ Text.byteLength (text.take n) := by
  obtain ⟨more, hmore⟩ := List.take_prefix_take_left (l := text) hle
  rw [← hmore, Text.byteLength_append]
  exact Nat.le_add_right _ _

theorem isLeast_byteLength (hne : rest ≠ []) (reached : Nat) :
    IsLeast {m | max 1 (Text.byteLength (rest.take reached)) ≤ m ∧ (Text.cut? m rest).isSome}
      (Text.byteLength (rest.take (max 1 reached))) := by
  obtain ⟨c, behind, rfl⟩ := List.exists_cons_of_ne_nil hne
  have hone : Text.byteLength ((c :: behind).take 1) = c.utf8Size := by simp
  have hpos := c.utf8Size_pos
  constructor
  · refine ⟨Nat.max_le.mpr ⟨?_, byteLength_take_le (Nat.le_max_right _ _)⟩, ?_⟩
    · have hle : Text.byteLength ((c :: behind).take 1) ≤
          Text.byteLength ((c :: behind).take (max 1 reached)) :=
        byteLength_take_le (Nat.le_max_left 1 reached)
      omega
    · have hcut := Text.cut?_byteLength ((c :: behind).take (max 1 reached))
        ((c :: behind).drop (max 1 reached))
      rw [List.take_append_drop] at hcut
      rw [hcut]
      rfl
  · rintro m ⟨hm, hcut⟩
    obtain ⟨⟨before, after⟩, hcut⟩ := Option.isSome_iff_exists.mp hcut
    obtain ⟨htext, rfl⟩ := Text.cut?_eq_some_iff.mp hcut
    rw [Nat.max_le] at hm
    rcases Nat.le_total reached 1 with hle | hge
    · rw [Nat.max_eq_left hle, hone]
      cases before with
      | nil => simp at hm
      | cons d before =>
          obtain ⟨rfl, -⟩ := List.cons.inj htext
          exact Nat.le_add_right _ _
    · rw [Nat.max_eq_right hge]
      exact hm.2

/-- The first lexeme of a text is as it must be. -/
theorem isMunched_munch (hne : rest ≠ []) :
    Token.IsMunched rest (munch rest).1 (rest.take (munch rest).2) where
  described := fun _ => exists_of_munch
  longest := by
    intro hkind other hother hdescribed
    obtain ⟨more, hmore⟩ := prefix_take_munch hkind hother hdescribed
    rw [← hmore, Text.byteLength_append]
    exact Nat.le_add_right _ _
  static_iff := munch_fst_eq_some_iff hne pattern_of_static (by decide)
  typedef_iff := munch_fst_eq_some_iff hne pattern_of_typedef (by decide)
  none_iff := munch_fst_eq_none_iff hne
  open_end := by
    intro hkind
    rw [munch_snd_of_none hkind]
    exact ⟨_, isGreatest_canGrow rest, isLeast_byteLength hne _⟩

end Munch

end Lexer

/-! ### All lexemes -/

/-- A lexeme of a text as one of a text with `n` more bytes in front. -/
def Lexeme.shift (n : Nat) (lexeme : Lexeme) : Lexeme := { lexeme with start := n + lexeme.start }

theorem Lexeme.shift_zero : Lexeme.shift 0 = id := by
  funext lexeme
  rw [Lexeme.shift, Nat.zero_add]
  rfl

theorem Lexeme.shift_shift (m n : Nat) (lexeme : Lexeme) :
    (lexeme.shift n).shift m = lexeme.shift (m + n) := by
  simp only [Lexeme.shift, Nat.add_assoc]

theorem Lexeme.map_shift_shift (m n : Nat) (lexemes : List Lexeme) :
    (lexemes.map (shift n)).map (shift m) = lexemes.map (shift (m + n)) := by
  rw [List.map_map]
  exact List.map_congr_left fun lexeme _ => shift_shift m n lexeme

theorem Lexeme.flatMap_text_shift (n : Nat) (lexemes : List Lexeme) :
    (lexemes.map (shift n)).flatMap Lexeme.text = lexemes.flatMap Lexeme.text :=
  List.flatMap_map _ _ lexemes

namespace Lexer

theorem lexFrom_succ {text : Text} (hne : text ≠ []) (fuel start : Nat) :
    lexFrom (fuel + 1) start text =
      ⟨(munch text).1, text.take (munch text).2, start⟩ ::
        lexFrom fuel (start + Text.byteLength (text.take (munch text).2))
          (text.drop (munch text).2) := by
  rw [lexFrom]
  · rfl
  · exact fun h => hne h

theorem lexFrom_eq_map (fuel start : Nat) (text : Text) :
    lexFrom fuel start text = (lexFrom fuel 0 text).map (Lexeme.shift start) := by
  induction fuel generalizing start text with
  | zero => rfl
  | succ fuel ih =>
      by_cases hne : text = []
      · rw [hne]
        rfl
      · rw [lexFrom_succ hne, lexFrom_succ hne, ih, Nat.zero_add, List.map_cons,
          ih (Text.byteLength _), Lexeme.map_shift_shift]
        rfl

/-- Any fuel that is enough gives the same lexemes. -/
theorem lexFrom_eq_of_le {fuel fuel' : Nat} {text : Text} (hfuel : text.length ≤ fuel)
    (hfuel' : text.length ≤ fuel') (start : Nat) :
    lexFrom fuel start text = lexFrom fuel' start text := by
  induction fuel generalizing fuel' start text with
  | zero =>
      rw [List.eq_nil_of_length_eq_zero (Nat.le_zero.mp hfuel)]
      cases fuel' <;> rfl
  | succ fuel ih =>
      by_cases hne : text = []
      · rw [hne]
        cases fuel' <;> rfl
      · have hpos := munch_pos text
        have hlength := List.length_pos_iff.mpr hne
        obtain ⟨less, rfl⟩ : ∃ less, fuel' = less + 1 := ⟨fuel' - 1, by omega⟩
        rw [lexFrom_succ hne, lexFrom_succ hne]
        refine congrArg _ (ih ?_ ?_ _)
        · rw [List.length_drop]
          omega
        · rw [List.length_drop]
          omega

end Lexer

open Lexer

theorem lex_nil : lex [] = [] := rfl

/-- The first lexeme of a text, and behind it the lexemes of what remains. -/
theorem lex_of_ne_nil {text : Text} (hne : text ≠ []) :
    lex text = ⟨(munch text).1, text.take (munch text).2, 0⟩ ::
      (lex (text.drop (munch text).2)).map
        (Lexeme.shift (Text.byteLength (text.take (munch text).2))) := by
  have hpos := munch_pos text
  have hlength := List.length_pos_iff.mpr hne
  obtain ⟨less, hless⟩ : ∃ less, text.length = less + 1 := ⟨text.length - 1, by omega⟩
  have henough : (text.drop (munch text).2).length ≤ less := by
    rw [List.length_drop]
    omega
  rw [lex, hless, lexFrom_succ hne, lexFrom_eq_of_le henough (Nat.le_refl _), lexFrom_eq_map,
    Nat.zero_add]
  rfl

/-- Induction from what remains behind the first lexeme to the whole text. -/
theorem lex_induction {motive : Text → Prop} (nil : motive [])
    (more : ∀ text, text ≠ [] → motive (text.drop (munch text).2) → motive text) (text : Text) :
    motive text := by
  induction hlength : text.length using Nat.strong_induction_on generalizing text with
  | _ length ih =>
      by_cases hne : text = []
      · exact hne ▸ nil
      · refine more text hne (ih _ ?_ _ rfl)
        have hpos := munch_pos text
        have hpos' := List.length_pos_iff.mpr hne
        rw [List.length_drop]
        omega

/-- Lexemes that cover a text from a byte on: none is empty, each has its piece of the text, and the
next one begins where it ends. -/
inductive Tiles (text : Text) : Nat → List Lexeme → Prop where
  | done : Tiles text (Text.byteLength text) []
  | next (lexeme : Lexeme) {others : List Lexeme} : lexeme.start < lexeme.stop →
      Text.between? lexeme.start lexeme.stop text = some lexeme.text →
      Tiles text lexeme.stop others → Tiles text lexeme.start (lexeme :: others)

theorem Tiles.lexeme {kind : Option TokenKind} {front first behind : Text} {others : List Lexeme}
    (hne : first ≠ [])
    (hothers : Tiles (front ++ first ++ behind) (Text.byteLength (front ++ first)) others) :
    Tiles (front ++ first ++ behind) (Text.byteLength front)
      (⟨kind, first, Text.byteLength front⟩ :: others) := by
  have hpos := Nat.pos_of_ne_zero (mt Text.byteLength_eq_zero_iff.mp hne)
  rw [Text.byteLength_append] at hothers
  have hpiece : Text.between? (Text.byteLength front) (Text.byteLength front + Text.byteLength first)
      (front ++ first ++ behind) = some first :=
    Text.between?_eq_some_iff.mpr ⟨front, behind, rfl, rfl, rfl⟩
  exact .next ⟨kind, first, _⟩ (Nat.lt_add_of_pos_right hpos) hpiece hothers

theorem tiles_shift_lex (front rest : Text) :
    Tiles (front ++ rest) (Text.byteLength front)
      ((lex rest).map (Lexeme.shift (Text.byteLength front))) := by
  induction rest using lex_induction generalizing front with
  | nil =>
      rw [List.append_nil, lex_nil]
      exact .done
  | more rest hne ih =>
      have hrest : front ++ rest =
          front ++ rest.take (munch rest).2 ++ rest.drop (munch rest).2 := by
        rw [List.append_assoc, List.take_append_drop]
      rw [lex_of_ne_nil hne, List.map_cons, Lexeme.map_shift_shift, ← Text.byteLength_append, hrest]
      exact (ih _).lexeme (take_munch_ne_nil hne)

/-- Where the lexemes of a text are cut in two, the later ones are those of what remains. -/
theorem exists_of_lex_eq_append {text : Text} {earlier later : List Lexeme}
    (hlex : lex text = earlier ++ later) :
    ∃ rest, text = earlier.flatMap Lexeme.text ++ rest ∧
      later = (lex rest).map (Lexeme.shift (Text.byteLength (earlier.flatMap Lexeme.text))) := by
  induction text using lex_induction generalizing earlier later with
  | nil =>
      obtain ⟨rfl, rfl⟩ := List.append_eq_nil_iff.mp hlex.symm
      exact ⟨[], rfl, rfl⟩
  | more text hne ih =>
      cases earlier with
      | nil =>
          refine ⟨text, rfl, ?_⟩
          rw [List.flatMap_nil, Text.byteLength_nil, Lexeme.shift_zero, List.map_id]
          exact hlex.symm
      | cons first earlier =>
          rw [lex_of_ne_nil hne, List.cons_append, List.cons.injEq] at hlex
          obtain ⟨rfl, hlex⟩ := hlex
          obtain ⟨before, behind, hsplit, rfl, rfl⟩ := List.map_eq_append_iff.mp hlex
          obtain ⟨rest, hrest, rfl⟩ := ih hsplit
          rw [List.flatMap_cons, Lexeme.flatMap_text_shift]
          refine ⟨rest, ?_, ?_⟩
          · rw [List.append_assoc, ← hrest, List.take_append_drop]
          · rw [Lexeme.map_shift_shift, Text.byteLength_append]

/-- The lexemes of a text tile it, and each is as it must be at the start of what remains. -/
theorem lex_is_maximal_munch (text : Text) :
    Tiles text 0 (lex text) ∧
      ∀ lexeme ∈ lex text, ∃ rest, Text.drop? lexeme.start text = some rest ∧
        Token.IsMunched rest lexeme.kind lexeme.text := by
  constructor
  · have htiles := tiles_shift_lex [] text
    rwa [List.nil_append, Text.byteLength_nil, Lexeme.shift_zero, List.map_id] at htiles
  · intro lexeme hmem
    obtain ⟨earlier, later, hlex⟩ := List.append_of_mem hmem
    obtain ⟨rest, htext, hlater⟩ := exists_of_lex_eq_append hlex
    have hne : rest ≠ [] := by
      rintro rfl
      cases hlater
    rw [lex_of_ne_nil hne, List.map_cons, List.cons.injEq] at hlater
    obtain ⟨rfl, -⟩ := hlater
    exact ⟨rest, Text.drop?_eq_some_iff.mpr ⟨_, htext, rfl⟩, isMunched_munch hne⟩

end PlainC

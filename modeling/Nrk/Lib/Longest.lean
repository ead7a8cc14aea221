import Mathlib.Tactic

/-! # Longest-match lexing

Lexers in the style of logos: the longest match wins, and of equally long ones the rule listed
first. `LongestMatch` is what such a lexer does; `tokens` is one. -/

namespace Longest

variable {τ : Type*}

/-- A rule: the length of its longest match at the head of the input, and its token. -/
structure Rule (τ : Type*) where
  len : List Char → Option ℕ
  token : τ

/-- Whether a nonempty match of length `n` beats the best match so far. -/
def beats (n : ℕ) : Option (τ × ℕ) → Bool
  | none => 0 < n
  | some (_, m) => m < n

/-- One rule's turn: its match replaces the best so far when it is strictly longer. -/
def consider (input : List Char) (acc : Option (τ × ℕ)) (r : Rule τ) : Option (τ × ℕ) :=
  match r.len input with
  | some n => if beats n acc then some (r.token, n) else acc
  | none => acc

/-- The longest of the rules' nonempty matches at the head of `input`, and of equally long
ones the first rule's. -/
def best (rules : List (Rule τ)) (input : List Char) : Option (τ × ℕ) :=
  rules.foldl (consider input) none

/-- The tokens of `input`, in at most `fuel` steps: a match whose token `skip` accepts is
dropped, and a character that no rule matches is given as `error`. -/
def lex (rules : List (Rule τ)) (skip : τ → Bool) (error : τ) :
    ℕ → List Char → List (τ × List Char)
  | 0, _ => []
  | _ + 1, [] => []
  | fuel + 1, c :: cs =>
      match best rules (c :: cs) with
      | some (t, n) =>
          if skip t then lex rules skip error fuel ((c :: cs).drop n)
          else (t, (c :: cs).take n) :: lex rules skip error fuel ((c :: cs).drop n)
      | none => (error, [c]) :: lex rules skip error fuel cs

/-- The tokens of the whole of `input`. -/
def tokens (rules : List (Rule τ)) (skip : τ → Bool) (error : τ) (input : List Char) :
    List (τ × List Char) :=
  lex rules skip error input.length input

variable {rules : List (Rule τ)} {skip : τ → Bool} {error : τ} {input : List Char}
  {t : τ} {n : ℕ}

/-! ## The match chosen -/

/-- The best match so far is shorter than `n`. -/
def Below (n : ℕ) (acc : Option (τ × ℕ)) : Prop := (acc.map Prod.snd).getD 0 < n

theorem Below.consider {acc : Option (τ × ℕ)} {r : Rule τ} (hacc : Below n acc)
    (hr : (r.len input).getD 0 < n) : Below n (consider input acc r) := by
  rcases hlen : r.len input with _ | m
  · simpa [Longest.consider, hlen] using hacc
  · rw [hlen, Option.getD_some] at hr
    simp only [Longest.consider, hlen]
    split_ifs
    · exact hr
    · exact hacc

theorem below_foldl (pre : List (Rule τ)) (hpre : ∀ r ∈ pre, (r.len input).getD 0 < n) :
    ∀ acc, Below n acc → Below n (pre.foldl (consider input) acc) := by
  induction pre with
  | nil => exact fun acc hacc => hacc
  | cons r pre ih =>
      intro acc hacc
      exact ih (fun r' hr' => hpre r' (List.mem_cons_of_mem r hr'))
        _ (hacc.consider (hpre r List.mem_cons_self))

theorem foldl_of_le (post : List (Rule τ)) (hpost : ∀ r ∈ post, (r.len input).getD 0 ≤ n) :
    post.foldl (consider input) (some (t, n)) = some (t, n) := by
  induction post with
  | nil => rfl
  | cons r post ih =>
      have hr := hpost r List.mem_cons_self
      have hstay : consider input (some (t, n)) r = some (t, n) := by
        unfold consider
        rcases hlen : r.len input with _ | m
        · rfl
        · rw [hlen, Option.getD_some] at hr
          simp [beats, Nat.not_lt.mpr hr]
      rw [List.foldl_cons, hstay]
      exact ih fun r' hr' => hpost r' (List.mem_cons_of_mem r hr')

/-- A rule's nonempty match is the one chosen when every rule before it matches less and
every rule after it no more. -/
theorem best_of_split {pre post : List (Rule τ)} {r : Rule τ} (hrules : rules = pre ++ r :: post)
    (hr : r.len input = some n) (hpos : 0 < n)
    (hpre : ∀ r' ∈ pre, (r'.len input).getD 0 < n)
    (hpost : ∀ r' ∈ post, (r'.len input).getD 0 ≤ n) :
    best rules input = some (r.token, n) := by
  have hbelow := below_foldl pre hpre none hpos
  have hbeats : beats n (pre.foldl (consider input) none) = true := by
    rcases hacc : pre.foldl (consider input) none with _ | ⟨t', m⟩
    · simpa [beats] using hpos
    · rw [Below, hacc] at hbelow
      simpa [beats] using hbelow
  rw [best, hrules, List.foldl_append, List.foldl_cons]
  have hat : consider input (pre.foldl (consider input) none) r = some (r.token, n) := by
    simp [consider, hr, hbeats]
  rw [hat]
  exact foldl_of_le post hpost

theorem best_pos (h : best rules input = some (t, n)) : 0 < n := by
  have hall : ∀ (rs : List (Rule τ)) (acc : Option (τ × ℕ)),
      (∀ t m, acc = some (t, m) → 0 < m) →
        ∀ t m, rs.foldl (consider input) acc = some (t, m) → 0 < m := by
    intro rs
    induction rs with
    | nil => exact fun acc hacc => hacc
    | cons r rs ih =>
        intro acc hacc
        refine ih _ fun t m hm => ?_
        unfold consider at hm
        split at hm
        · split_ifs at hm with hb
          · obtain ⟨-, rfl⟩ := Prod.mk.inj (Option.some.inj hm)
            rcases acc with _ | ⟨t', m'⟩
            · simpa [beats] using hb
            · have := hacc t' m' rfl
              simp only [beats, decide_eq_true_eq] at hb
              omega
          · exact hacc t m hm
        · exact hacc t m hm
  exact hall rules none (by simp) t n h

/-! ## Running the lexer -/

/-- Any fuel at least the input's length gives all its tokens. -/
theorem lex_of_length_le : ∀ (fuel : ℕ) (input : List Char), input.length ≤ fuel →
    lex rules skip error fuel input = tokens rules skip error input
  | 0, input, h => by
      obtain rfl : input = [] := List.eq_nil_of_length_eq_zero (by omega)
      rfl
  | fuel + 1, [], _ => rfl
  | fuel + 1, c :: cs, h => by
      -- both runs take the same first step; what is left is shorter than either fuel
      have hcs : cs.length ≤ fuel := by simpa using h
      unfold tokens
      rw [List.length_cons]
      simp only [lex]
      rcases hbest : best rules (c :: cs) with _ | ⟨t, n⟩
      · simp only [lex_of_length_le fuel cs hcs, lex_of_length_le cs.length cs le_rfl]
      · have hn := best_pos hbest
        have hdrop : ((c :: cs).drop n).length ≤ fuel := by simp; omega
        have hdrop' : ((c :: cs).drop n).length ≤ cs.length := by simp; omega
        simp only [lex_of_length_le fuel _ hdrop, lex_of_length_le cs.length _ hdrop']

theorem tokens_nil : tokens rules skip error [] = [] := rfl

theorem tokens_of_best (hne : input ≠ []) (h : best rules input = some (t, n))
    (hskip : skip t = false) :
    tokens rules skip error input = (t, input.take n) :: tokens rules skip error (input.drop n) := by
  obtain ⟨c, cs, rfl⟩ := List.exists_cons_of_ne_nil hne
  have hn := best_pos h
  have hdrop : ((c :: cs).drop n).length ≤ cs.length := by simp; omega
  unfold tokens
  simp only [List.length_cons, lex, h, hskip, Bool.false_eq_true, if_false]
  rw [lex_of_length_le cs.length _ hdrop]
  rfl

theorem tokens_of_best_skip (hne : input ≠ []) (h : best rules input = some (t, n))
    (hskip : skip t = true) :
    tokens rules skip error input = tokens rules skip error (input.drop n) := by
  obtain ⟨c, cs, rfl⟩ := List.exists_cons_of_ne_nil hne
  have hn := best_pos h
  have hdrop : ((c :: cs).drop n).length ≤ cs.length := by simp; omega
  unfold tokens
  simp only [List.length_cons, lex, h, hskip, if_true]
  exact lex_of_length_le cs.length _ hdrop

/-! ## Lexers that match longest -/

/-- What a lexer does that takes the longest match of `rules`, of equally long matches the first
rule's, and drops the matches whose token `skip` accepts. It says nothing of input that no
rule matches. -/
structure LongestMatch (lexer : List Char → List (τ × List Char)) (rules : List (Rule τ))
    (skip : τ → Bool) : Prop where
  nil : lexer [] = []
  token : ∀ {input t n}, input ≠ [] → best rules input = some (t, n) → skip t = false →
    lexer input = (t, input.take n) :: lexer (input.drop n)
  skipped : ∀ {input t n}, input ≠ [] → best rules input = some (t, n) → skip t = true →
    lexer input = lexer (input.drop n)

theorem tokens_longestMatch : LongestMatch (tokens rules skip error) rules skip :=
  ⟨tokens_nil, tokens_of_best, tokens_of_best_skip⟩

end Longest

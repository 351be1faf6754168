import ScriptModules.Proofs.Quoting
import ScriptModules.Proofs.Words

/-!
# Tokens

A `Token` is a sign or a keyword, an identifier, a member name, a number, or a text. The same number
and the same text may be spelled in different ways. `Spaced` lays tokens out with gaps between them,
whatever spellings and gaps are chosen. `Laid` is the same for the beginning of a longer text.

Looking ahead at a token settles which rules fail there (`Looks.fails`), and each kind of token is
read by its rule (`Laid.sign_reads`, `Laid.name_reads`, …).
-/

namespace ScriptModules

open Grammar Grammar.RuleSet

/-! ### What tokens are -/

/-- Signs and keywords. -/
inductive Sign where
  | openParen | closeParen | openBracket | closeBracket | openBrace | closeBrace
  | comma | colon | semicolon | dot | question | arrow
  | assign | addAssign | subAssign
  | or | and | strictEq | strictNe | eq | ne | le | ge | lt | gt
  | plus | minus | times | divided | percent | not
  | typeofWord | functionWord | returnWord | ifWord | elseWord | throwWord
  | varWord | letWord | constWord
  | trueWord | falseWord | nullWord | undefinedWord | thisWord
deriving DecidableEq

namespace Sign

/-- How a sign is written. -/
def text : Sign → String
  | openParen => "(" | closeParen => ")" | openBracket => "[" | closeBracket => "]"
  | openBrace => "\x7b" | closeBrace => "\x7d" | comma => "," | colon => ":" | semicolon => ";"
  | dot => "." | question => "?" | arrow => "=>" | assign => "=" | addAssign => "+="
  | subAssign => "-=" | or => "||" | and => "&&" | strictEq => "===" | strictNe => "!=="
  | eq => "==" | ne => "!=" | le => "<=" | ge => ">=" | lt => "<" | gt => ">" | plus => "+"
  | minus => "-" | times => "*" | divided => "/" | percent => "%" | not => "!"
  | typeofWord => "typeof" | functionWord => "function" | returnWord => "return" | ifWord => "if"
  | elseWord => "else" | throwWord => "throw" | varWord => "var" | letWord => "let"
  | constWord => "const" | trueWord => "true" | falseWord => "false" | nullWord => "null"
  | undefinedWord => "undefined" | thisWord => "this"

/-- The characters of a sign. -/
def chars (w : Sign) : List Char := w.text.toList

/-- A sign is not empty, and no blank begins with it. -/
theorem solid (w : Sign) : Glance.isSolid w.chars = true := by cases w <;> decide

end Sign

/-- A token of a script. -/
inductive Token where
  | sign (w : Sign)
  | name (x : String)
  /-- The name of a member, which may be a keyword. -/
  | key (x : String)
  | number (x : Float)
  | text (s : String)

namespace Token

/-- **The characters spell the token.** An identifier must match `identifier`, and the name of a
member `identifier_name`. A number is spelled by any `number_literal` for it, and a text by any
literal that stands for it. -/
def Spelling : Token → List Char → Prop
  | sign w, cs => cs = w.chars
  | name x, cs => cs = x.toList ∧ script.Takes .identifier cs
  | key x, cs => cs = x.toList ∧ script.Takes .identifierName cs
  | number x, cs => script.Takes .numberLiteral cs ∧ Number.read? cs = some x
  | text s, cs => IsLiteral s cs

theorem isSolid_of_head {k : CharClass} {x : Char} {xs : List Char} (hx : k.has x = true)
    (hk : k.meets (.oneOf ('/' :: spaces)) = false) : Glance.isSolid (x :: xs) = true := by
  obtain ⟨hslash, hspace⟩ := begins_no_blank (CharClass.not_has_of_meets hk hx)
  simp [Glance.isSolid, hspace, hslash]

theorem Spelling.solid {t : Token} {cs : List Char} (h : t.Spelling cs) :
    Glance.isSolid cs = true := by
  cases t with
  | sign w =>
    obtain rfl : cs = w.chars := h
    exact w.solid
  | name x =>
    obtain ⟨y, ys, rfl, hy, -⟩ := name_shape (identifier_isName h.2)
    exact isSolid_of_head hy (by decide)
  | key x =>
    obtain ⟨y, ys, rfl, hy, -⟩ := name_shape h.2
    exact isSolid_of_head hy (by decide)
  | number x =>
    obtain ⟨y, ys, rfl, hy⟩ := number_shape h.1
    exact isSolid_of_head hy (by decide)
  | text s =>
    have h : IsLiteral s cs := h
    cases h <;> rfl

end Token

/-! ### Tokens in a text -/

/-- **The tokens one after the other, with a gap behind each;** behind the last there may be none. -/
inductive Spaced : List Token → List Char → Prop where
  | nil : Spaced [] []
  | last {t : Token} {cs} : t.Spelling cs → Spaced [t] cs
  | cons {t : Token} {ts cs g s} : t.Spelling cs → Gap g → Spaced ts s →
    Spaced (t :: ts) (cs ++ (g ++ s))

/-- Tokens that can be spelled have a text. -/
theorem exists_spaced {ts : List Token} (h : ∀ t ∈ ts, ∃ cs, t.Spelling cs) : ∃ s, Spaced ts s := by
  induction ts with
  | nil => exact ⟨[], .nil⟩
  | cons t ts ih =>
    obtain ⟨ht, hts⟩ := List.forall_mem_cons.1 h
    obtain ⟨cs, hcs⟩ := ht
    obtain ⟨s, hs⟩ := ih hts
    have hspace : Gap [' '] := ⟨.space rfl .nil, ' ', [], rfl, rfl⟩
    exact ⟨_, .cons hcs hspace hs⟩

/-- The text `s` begins with the tokens, each before a gap, and goes on with `m`, where no blank
begins. -/
inductive Laid : List Token → List Char → List Char → Prop where
  | nil {s} : Solid s → Laid [] s s
  | last {t : Token} {cs} : t.Spelling cs → Laid [t] cs []
  | cons {t : Token} {ts cs g s m} : t.Spelling cs → Gap g → Laid ts s m →
    Laid (t :: ts) (cs ++ (g ++ s)) m

theorem Spaced.laid {ts : List Token} {s : List Char} (h : Spaced ts s) : Laid ts s [] := by
  induction h with
  | nil => exact .nil solid_nil
  | last ht => exact .last ht
  | cons ht hg _ ih => exact .cons ht hg ih

namespace Laid

variable {t : Token} {ts us : List Token} {s m : List Char}

/-- No blank begins at a token. -/
theorem solid (h : Laid ts s m) : Solid s := by
  cases h with
  | nil h => exact h
  | last ht =>
    intro n
    have := skipBlank_token edge_nil ht.solid n
    rwa [List.append_nil] at this
  | cons ht hg _ => exact skipBlank_token (hg.edge _) ht.solid

/-- No blank begins behind the tokens and the gap. -/
theorem solid_end (h : Laid ts s m) : Solid m := by
  induction h with
  | nil h => exact h
  | last _ => exact solid_nil
  | cons _ _ _ ih => exact ih

/-- The tokens in two parts. -/
theorem split (h : Laid (ts ++ us) s m) : ∃ k, Laid ts s k ∧ Laid us k m := by
  induction ts generalizing s with
  | nil => exact ⟨s, .nil h.solid, h⟩
  | cons t ts ih =>
    generalize hts : t :: ts ++ us = all at h
    cases h with
    | nil => cases hts
    | last ht =>
      obtain ⟨rfl, hnil⟩ := List.cons.inj hts
      obtain ⟨rfl, rfl⟩ := List.append_eq_nil_iff.1 hnil
      exact ⟨[], .last ht, .nil solid_nil⟩
    | cons ht hg h =>
      obtain ⟨rfl, rfl⟩ := List.cons.inj hts
      obtain ⟨k, hfirst, hrest⟩ := ih h
      exact ⟨k, .cons ht hg hfirst, hrest⟩

/-- The first token and the others. -/
theorem uncons (h : Laid (t :: ts) s m) : ∃ k, Laid [t] s k ∧ Laid ts k m := by
  have h : Laid ([t] ++ ts) s m := h
  exact h.split

/-- A token stands before a gap or at the end, and blank is skipped up to the next. -/
theorem single (h : Laid (t :: ts) s m) :
    ∃ cs tail, t.Spelling cs ∧ s = cs ++ tail ∧ Edge tail ∧
      (ts = [] → ∀ n, (skipBlank n tail).rest = m) := by
  cases h with
  | last ht => exact ⟨_, [], ht, (List.append_nil _).symm, edge_nil, fun _ _ => rfl⟩
  | cons ht hg h =>
    refine ⟨_, _, ht, rfl, hg.edge _, ?_⟩
    rintro rfl n
    cases h with
    | nil hs => exact hs.behind_blank hg.blank n

end Laid

/-! ### Looking at the next token -/

/-- The rules that fail at every identifier. -/
def isKeywordRule : Rule → Bool
  | .varKind | .kwFunction | .kwReturn | .kwIf | .kwElse | .kwThrow | .booleanLiteral | .nullLiteral
  | .undefinedLiteral | .thisExpression | .typeofOp => true
  | _ => false

/-- The rules that look at nothing but one token. -/
def isTokenRule : Rule → Bool
  | .keyword | .identifier | .identifierName | .numberLiteral => true
  | _ => false

theorem tokenRule_staysInside (r : Rule) (h : isTokenRule r = true) :
    (script.body r).staysInside isTokenRule = true := by
  cases r <;> first
    | decide +kernel
    | cases h

/-- What stands next in a text. -/
inductive Next where
  | sign (w : Sign)
  | name
  | number
  | text
  | finished
deriving DecidableEq

namespace Next

/-- How it is seen. -/
def view : Next → View
  | sign w => .token w.chars
  | name => .opens .nameStart
  | number => .opens .digit
  | text => .opens (.oneOf ['"', '\''])
  | finished => .finished

/-- Rules that fail there, although the first character does not show it. -/
def lacks : Next → Rule → Bool
  | name => isKeywordRule
  | _ => fun _ => false

/-- Whether a look ahead settles that the pattern fails there. -/
def dismisses (n : Next) (p : Pattern Rule) : Bool :=
  p.fits Rule.takesCharacter Rule.rank 70 && (script.glance n.lacks 40 .loose p n.view).isFailure

end Next

/-- Whether a look ahead settles that the rule matches exactly the sign, and leaves a node. -/
def accepts (r : Rule) (w : Sign) : Bool :=
  (Pattern.rule r).fits Rule.takesCharacter Rule.rank 70 && script.leaves r .loose &&
    (script.glance (Next.sign w).lacks 40 .loose (.rule r) (Next.sign w).view).isWhole

/-- This stands next in the text. -/
def Looks (n : Next) (s : List Char) : Prop :=
  ∃ tail, Edge tail ∧ n.view.Sees s tail s ∧
    ∀ r, n.lacks r = true → ∀ at_ o, script.Comes at_ (.rule r) ⟨o, s⟩ none

/-- **What a look ahead dismisses fails.** -/
theorem Looks.fails {n : Next} {s : List Char} {p : Pattern Rule} (h : Looks n s)
    (hp : n.dismisses p = true) : script.Fails p s := by
  intro o
  obtain ⟨tail, hedge, hv, hlacks⟩ := h
  obtain ⟨hfits, hfailure⟩ := Bool.and_eq_true_iff.1 hp
  obtain ⟨r, hr⟩ := script_layered.exists_comes hfits .loose ⟨o, s⟩
  have hholds := glance_holds hedge hlacks hr 40 n.view hv
  cases hg : script.glance n.lacks 40 .loose p n.view with
  | fails =>
    rw [hg] at hholds
    obtain rfl : r = none := Option.map_eq_none_iff.1 hholds
    exact hr
  | onto | unknown =>
    rw [hg] at hfailure
    cases hfailure

/-- A node that has the number `x`. -/
def NumberOf (x : Float) (n : Node Rule) : Prop :=
  n.rule = .numberLiteral ∧ Number.read? n.chars = some x

theorem looks_finished : Looks .finished [] := ⟨[], edge_nil, rfl, fun _ h => by cases h⟩

namespace Laid

variable {w : Sign} {x : String} {ts : List Token} {s m : List Char}

theorem sign_looks (h : Laid (.sign w :: ts) s m) : Looks (.sign w) s := by
  obtain ⟨_, tail, rfl, hs, hedge, -⟩ := h.single
  refine ⟨tail, hedge, ⟨fun hnil => ?_, hs⟩, fun _ h => by cases h⟩
  have hsolid := w.solid
  rw [hnil] at hsolid
  cases hsolid

/-- The rules of keywords fail at an identifier. -/
theorem name_looks (h : Laid (.name x :: ts) s m) : Looks .name s := by
  obtain ⟨_, tail, ⟨rfl, hx⟩, rfl, hedge, -⟩ := h.single
  refine ⟨tail, hedge, ⟨rfl, ?_⟩, fun r hr at_ o => ?_⟩
  · obtain ⟨y, ys, hy, hhas, -⟩ := name_shape (identifier_isName hx)
    exact ⟨y, ys ++ tail, by rw [hy, List.cons_append], hhas⟩
  · -- what it comes to is no match, by the form of these rules
    have hform : script.mode r = .atomic ∧ ∃ p ws, script.body r = .next p (.not (.char .namePart)) ∧
        p.words? = some ws ∧ ∀ w ∈ ws, w ∈ reserved := by
      cases r <;> first
        | exact ⟨rfl, _, _, rfl, rfl, by decide⟩
        | cases hr
    obtain ⟨hmode, p, ws, hbody, hp, hws⟩ := hform
    obtain ⟨v, hv⟩ := script_layered.exists_comes (p := .rule r) (by cases r <;> decide) at_
      ⟨o, x.toList ++ tail⟩
    cases hv with
    | ruleFails h => exact .ruleFails h
    | rule h =>
      rw [atomicityIn, hmode, hbody] at h
      have hword : script.Comes .atomic (.next p (.not (.char .namePart))) _ _ := h
      exact absurd hword (keyword_fails hx hedge hp hws (by decide))

theorem number_looks {x : Float} (h : Laid (.number x :: ts) s m) : Looks .number s := by
  obtain ⟨_, tail, ⟨hx, -⟩, rfl, hedge, -⟩ := h.single
  obtain ⟨y, ys, hy, hhas⟩ := number_shape hx
  refine ⟨tail, hedge, ⟨rfl, y, ys ++ tail, ?_, hhas⟩, fun _ h => by cases h⟩
  rw [hy, List.cons_append]

theorem text_looks (h : Laid (.text x :: ts) s m) : Looks .text s := by
  obtain ⟨cs, tail, hx, rfl, hedge, -⟩ := h.single
  refine ⟨tail, hedge, ⟨rfl, ?_⟩, fun _ h => by cases h⟩
  have hx : IsLiteral x cs := hx
  cases hx with
  | double _ _ => exact ⟨'"', _, rfl, rfl⟩
  | single _ _ => exact ⟨'\'', _, rfl, rfl⟩

/-! ### Reading the next token -/

theorem lit_reads (h : Laid [.sign w] s m) : script.Reads (.lit w.text) s m Nothing := by
  intro o
  obtain ⟨_, tail, rfl, rfl, hedge, hm⟩ := h.single
  refine ⟨⟨o + w.chars.length, tail⟩, [], .text ?_, hm rfl _, rfl⟩
  have hpre : w.chars.isPrefixOf (w.chars ++ tail) = true := List.isPrefixOf_iff_prefix.2 ⟨tail, rfl⟩
  rw [Cursor.strip?, ← Sign.chars, if_pos hpre, List.drop_left]

/-- **A rule reads the sign that it accepts.** -/
theorem sign_reads {r : Rule} (h : Laid [.sign w] s m) (hr : accepts r w = true) :
    script.Reads (.rule r) s m (Sole (WordOf r w.chars)) := by
  intro o
  obtain ⟨tail, hedge, hv, hlacks⟩ := h.sign_looks
  obtain ⟨_, tail', rfl, hs, -, hm⟩ := h.single
  obtain rfl : tail' = tail := List.append_cancel_left (hs.symm.trans hv.2)
  simp only [accepts, Bool.and_eq_true] at hr
  obtain ⟨⟨hfits, hleaves⟩, hwhole⟩ := hr
  obtain ⟨v, hcomes⟩ := script_layered.exists_comes hfits .loose ⟨o, s⟩
  -- the rule comes to something, and the look ahead says that it is a match of the whole token
  have hholds := glance_holds hedge hlacks hcomes 40 _ hv
  cases hg : script.glance (Next.sign w).lacks 40 .loose (.rule r) (Next.sign w).view with
  | onto v' =>
    rw [hg] at hholds hwhole
    obtain rfl : v' = .gap := by
      cases v' <;> first | rfl | cases hwhole
    obtain ⟨c, hc, htail⟩ := hholds
    obtain ⟨⟨c, ns⟩, rfl, rfl⟩ := Option.map_eq_some_iff.1 hc
    obtain rfl := hs
    have htail : c.rest = tail' := htail
    refine ⟨c, ns, hcomes, ?_, hcomes.word htail hleaves⟩
    rw [Cursor.skipBlank, htail]
    exact hm rfl _
  | fails | unknown =>
    rw [hg] at hwhole
    cases hwhole

theorem name_reads (h : Laid [.name x] s m) :
    script.Reads (.rule .identifier) s m (Sole (WordOf .identifier x.toList)) := by
  obtain ⟨_, tail, ⟨rfl, hx⟩, rfl, hedge, hm⟩ := h.single
  exact Takes.reads tokenRule_staysInside rfl rfl hx hedge (hm rfl)

theorem key_reads (h : Laid [.key x] s m) :
    script.Reads (.rule .identifierName) s m (Sole (WordOf .identifierName x.toList)) := by
  obtain ⟨_, tail, ⟨rfl, hx⟩, rfl, hedge, hm⟩ := h.single
  exact Takes.reads tokenRule_staysInside rfl rfl hx hedge (hm rfl)

theorem number_reads {x : Float} (h : Laid [.number x] s m) :
    script.Reads (.rule .numberLiteral) s m (Sole (NumberOf x)) := by
  obtain ⟨_, tail, ⟨hnumeral, hx⟩, rfl, hedge, hm⟩ := h.single
  refine (Takes.reads tokenRule_staysInside rfl rfl hnumeral hedge (hm rfl)).mono ?_
  rintro _ ⟨n, rfl, hn⟩
  exact ⟨n, rfl, hn.1, hn.2.symm ▸ hx⟩

theorem text_reads (h : Laid [.text x] s m) :
    script.Reads (.rule .stringLiteral) s m (Sole (LiteralOf x)) := by
  obtain ⟨_, tail, hx, rfl, hedge, hm⟩ := h.single
  exact IsLiteral.reads hx (hm rfl)

end Laid

end ScriptModules

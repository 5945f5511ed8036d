import CopyTrading.Webhook.Alerts

/-!
# Webhook.Redact — the secret in texts and JSON (`_redact` of `routes/webhooks.py`)

A secret is `tvw_` and a token of url-safe characters.  `_redact` replaces the strings that begin like one, at any
depth; it leaves keys and longer strings as they are.  A message that quotes a value between blanks shows the
secret if and only if the value does.
-/

namespace Webhook

open List

/-- `SECRET_PREFIX`. -/
def tvw : List Char := ['t', 'v', 'w', '_']

/-- `SECRET_PREFIXES`. -/
def secretPrefixes : List (List Char) := [tvw, ['m', 't', '5', '_']]

/-- `value.startswith(SECRET_PREFIXES)`. -/
def secretShaped (s : String) : Bool := secretPrefixes.any fun p => p.isPrefixOf s.toList

mutual

/-- `_redact`. -/
def redact : Json → Json
  | .str s => .str (if secretShaped s then "***" else s)
  | .list items => .list (redactItems items)
  | .dict fields => .dict (redactFields fields)
  | .null => .null
  | .bool b => .bool b
  | .int n => .int n
  | .num x => .num x

def redactItems : List Json → List Json
  | [] => []
  | v :: items => redact v :: redactItems items

def redactFields : List (String × Json) → List (String × Json)
  | [] => []
  | f :: fields => redactField f :: redactFields fields

def redactField : String × Json → String × Json
  | (key, v) => (key, redact v)

end

/-! ### The texts of a value -/

section Texts

variable (key text : String → Bool)

mutual

/-- Some key satisfies `key`, or some string `text`. -/
def Json.anyText : Json → Bool
  | .str s => text s
  | .list items => itemsAny items
  | .dict fields => fieldsAny fields
  | .null => false
  | .bool _ => false
  | .int _ => false
  | .num _ => false

def itemsAny : List Json → Bool
  | [] => false
  | v :: items => v.anyText || itemsAny items

def fieldsAny : List (String × Json) → Bool
  | [] => false
  | f :: fields => fieldAny f || fieldsAny fields

def fieldAny : String × Json → Bool
  | (name, v) => key name || v.anyText

end

/-- What becomes of a string. -/
def redactText (s : String) : String := if secretShaped s then "***" else s

mutual

theorem anyText_redact : ∀ v : Json, (redact v).anyText key text = v.anyText key fun s => text (redactText s)
  | .str _ => rfl
  | .list items => itemsAny_redact items
  | .dict fields => fieldsAny_redact fields
  | .null => rfl
  | .bool _ => rfl
  | .int _ => rfl
  | .num _ => rfl

theorem itemsAny_redact : ∀ items : List Json,
    itemsAny key text (redactItems items) = itemsAny key (fun s => text (redactText s)) items
  | [] => rfl
  | v :: items => congrArg₂ (· || ·) (anyText_redact v) (itemsAny_redact items)

theorem fieldsAny_redact : ∀ fields : List (String × Json),
    fieldsAny key text (redactFields fields) = fieldsAny key (fun s => text (redactText s)) fields
  | [] => rfl
  | f :: fields => congrArg₂ (· || ·) (fieldAny_redact f) (fieldsAny_redact fields)

theorem fieldAny_redact : ∀ f : String × Json,
    fieldAny key text (redactField f) = fieldAny key (fun s => text (redactText s)) f
  | (name, v) => congrArg (key name || ·) (anyText_redact v)

end

theorem fieldsAny_eq_false {fields : List (String × Json)} :
    fieldsAny key text fields = false ↔ ∀ f ∈ fields, key f.1 = false ∧ f.2.anyText key text = false := by
  induction fields with
  | nil => simp [fieldsAny]
  | cons f fields ih =>
    obtain ⟨name, v⟩ := f
    simp [fieldsAny, fieldAny, ih]

end Texts

/-! ### Secrets -/

/-- `SECRET_PREFIX + secrets.token_urlsafe(32)`. -/
structure Secret where
  token : List Char
  urlSafe : ∀ c ∈ token, c.isAlphanum = true ∨ c = '-' ∨ c = '_'

namespace Secret

variable (s : Secret)

def text : List Char := tvw ++ s.token

/-- The text contains the secret. -/
def shownIn (t : String) : Bool := decide (s.text <:+: t.toList)

/-- The value contains the secret, in a string or a key. -/
def shownBy (v : Json) : Bool := v.anyText s.shownIn s.shownIn

/-- The secret is in a key, or in a string that does not begin like one. -/
def bareIn (v : Json) : Bool := v.anyText s.shownIn fun t => s.shownIn t && !secretShaped t

variable {s} {t u : String}

theorem shownIn_eq_false : s.shownIn t = false ↔ ¬ s.text <:+: t.toList := decide_eq_false_iff_not

/-- No blank, quote or bracket is in a secret. -/
theorem mem_text {c : Char} (h : c ∈ s.text) : c.isAlphanum = true ∨ c = '-' ∨ c = '_' := by
  rcases mem_append.1 h with h | h
  · fin_cases h <;> decide
  · exact s.urlSafe c h

theorem mem_text_tvw {c : Char} (h : c ∈ tvw) : c ∈ s.text := mem_append_left _ h

/-- A text of the code. -/
def plain (l : List Char) : Bool := !decide (tvw <:+: l)

/-- A text without `tvw_` does not contain a secret. -/
theorem shownIn_plain (h : plain t.toList = true) : s.shownIn t = false := by
  refine shownIn_eq_false.2 fun hs => ?_
  have hnot : ¬ tvw <:+: t.toList := by simpa [plain] using h
  exact hnot ((prefix_append tvw s.token).isInfix.trans hs)

/-- The same for a text of the code.  A literal is its characters by definition, and these are what the kernel
computes with. -/
theorem shownIn_literal {l : List Char} (h : plain l = true) : s.shownIn (String.ofList l) = false :=
  shownIn_plain (String.toList_ofList ▸ h)

/-- What is cut out of a text shows nothing that the text does not show. -/
theorem shownIn_of_infix (h : t.toList <:+: u.toList) (hu : s.shownIn u = false) : s.shownIn t = false :=
  shownIn_eq_false.2 fun hs => shownIn_eq_false.1 hu (hs.trans h)

/-- The character stands before or after a secret, not inside. -/
def Separates (c : Char) : Prop := ¬ (c.isAlphanum = true ∨ c = '-' ∨ c = '_')

instance (c : Char) : Decidable (Separates c) := inferInstanceAs (Decidable (¬ _))

/-- Two texts with a separator between them. -/
theorem shownIn_append (h : (∃ c, t.toList.getLast? = some c ∧ Separates c) ∨ ∃ c, u.toList.head? = some c ∧
    Separates c) :
    s.shownIn (t ++ u) = (s.shownIn t || s.shownIn u) := by
  rw [Bool.eq_iff_iff, Bool.or_eq_true]
  simp only [shownIn, decide_eq_true_eq, String.toList_append, infix_append_iff]
  refine ⟨fun hs => ?_, fun hs => hs.imp_right .inl⟩
  rcases hs with hs | hs | ⟨l₁, l₂, hl, hs₁, hs₂⟩
  · exact .inl hs
  · exact .inr hs
  · -- a secret across the seam has the last character of `t` and the first of `u`
    rcases eq_nil_or_concat l₁ with rfl | ⟨l, c, rfl⟩
    · rw [nil_append] at hl
      exact .inr (hl ▸ hs₂.isInfix)
    · cases l₂ with
      | nil =>
        rw [append_nil] at hl
        exact .inl (hl ▸ hs₁.isInfix)
      | cons d l₂ =>
        exfalso
        rcases h with ⟨c', hc, hsep⟩ | ⟨d', hd, hsep⟩
        · obtain ⟨a, ha⟩ := hs₁
          rw [← ha, concat_eq_append, ← append_assoc, getLast?_concat] at hc
          refine hsep (mem_text (s := s) ?_)
          rw [hl, ← Option.some.inj hc]
          simp
        · obtain ⟨a, ha⟩ := hs₂
          rw [← ha] at hd
          refine hsep (mem_text (s := s) ?_)
          rw [hl, ← Option.some.inj hd]
          simp

/-- A text of the code before a value. -/
def leads (l : List Char) : Bool := !decide (tvw <:+: l) && l.getLast?.any fun c => decide (Separates c)

/-- A text of the code behind a value. -/
def trails (l : List Char) : Bool := !decide (tvw <:+: l) && l.head?.any fun c => decide (Separates c)

variable {l : List Char}

theorem leads_iff : leads l = true ↔ plain l = true ∧ ∃ c, l.getLast? = some c ∧ Separates c := by
  simp [leads, plain, Option.any_eq_true]

theorem trails_iff : trails l = true ↔ plain l = true ∧ ∃ c, l.head? = some c ∧ Separates c := by
  simp [trails, plain, Option.any_eq_true]

theorem shown_lead (h : leads l = true) : s.shownIn (String.ofList l ++ u) = s.shownIn u := by
  obtain ⟨hplain, hlast⟩ := leads_iff.1 h
  rw [shownIn_append (.inl (String.toList_ofList ▸ hlast)), shownIn_literal hplain, Bool.false_or]

theorem shown_trail (h : trails l = true) : s.shownIn (t ++ String.ofList l) = s.shownIn t := by
  obtain ⟨hplain, hhead⟩ := trails_iff.1 h
  rw [shownIn_append (.inr (String.toList_ofList ▸ hhead)), shownIn_literal hplain, Bool.or_false]

theorem shown_between (h : trails l = true) (h' : leads l = true) :
    s.shownIn (t ++ String.ofList l ++ u) = (s.shownIn t || s.shownIn u) := by
  obtain ⟨-, c, hc, hsep⟩ := leads_iff.1 h'
  have hlast : (t ++ String.ofList l).toList.getLast? = some c := by
    rw [String.toList_append, String.toList_ofList, getLast?_append, hc]
    rfl
  rw [shownIn_append (.inl ⟨c, hlast, hsep⟩), shown_trail h]

theorem hidden_lead (h : leads l = true) (hu : s.shownIn u = false) : s.shownIn (String.ofList l ++ u) = false :=
  (shown_lead h).trans hu

theorem hidden_trail (h : trails l = true) (ht : s.shownIn t = false) : s.shownIn (t ++ String.ofList l) = false :=
  (shown_trail h).trans ht

/-- Behind a name of the code, the text shows what the value shows. -/
theorem shown_named (h : trails l = true) (h' : leads l = true) (ht : s.shownIn t = false) :
    s.shownIn (t ++ String.ofList l ++ u) = s.shownIn u := by
  rw [shown_between h h', ht, Bool.false_or]

/-- A text of the code between two values. -/
theorem hidden_between (h : trails l = true) (h' : leads l = true) (ht : s.shownIn t = false)
    (hu : s.shownIn u = false) : s.shownIn (t ++ String.ofList l ++ u) = false := (shown_named h h' ht).trans hu

theorem t_not_digit {n : ℕ} (h : 't' ∈ (toString n).toList) : False := by
  have hdigit : ('t').isDigit = true :=
    Nat.isDigit_of_mem_toDigits (b := 10) (n := n) (by decide) (by decide) (by simpa using h)
  exact absurd hdigit (by decide)

/-- A text without a `t`. -/
theorem shownIn_of_no_t (h : 't' ∉ t.toList) : s.shownIn t = false :=
  shownIn_eq_false.2 fun hs => h (hs.subset (mem_text_tvw mem_cons_self))

/-- The digits of a number. -/
theorem shownIn_repr (n : ℕ) : s.shownIn (toString n) = false := shownIn_of_no_t t_not_digit

theorem t_not_in_int {z : ℤ} : 't' ∉ (toString z).toList := by
  cases z with
  | ofNat n => exact t_not_digit
  | negSucc n =>
    show 't' ∉ ("-" ++ toString (n + 1)).toList
    rw [String.toList_append, mem_append, not_or]
    exact ⟨by decide, t_not_digit⟩

/-- **Redaction**: what is left of the secret is what was not a string that begins like one. -/
theorem shownBy_redact (v : Json) : s.shownBy (redact v) = s.bareIn v := by
  have hstars : s.shownIn "***" = false := shownIn_literal rfl
  unfold shownBy bareIn
  rw [anyText_redact]
  congr 1
  funext t
  unfold redactText
  split_ifs with h
  · rw [hstars, h, Bool.not_true, Bool.and_false]
  · rw [Bool.not_eq_true] at h
    rw [h, Bool.not_false, Bool.and_true]

end Secret

end Webhook

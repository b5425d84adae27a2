import AnnotationScan.Proofs.Token.Forms

/-!
# Nested comments

The rest of a block comment behind its opening, told as a grammar: characters, further comments and
the closing.  The search for the closing, which counts the comments that are open, ends exactly
where such a rest ends.
-/

namespace AnnotationScan

/-- Whether a pair stands at the start of a text that goes on is told without what comes later. -/
theorem pair_isPrefix_append {α : Type} {a b c : α} {text : List α} (h : text ≠ [])
    (more : List α) : [a, b] <+: c :: (text ++ more) ↔ [a, b] <+: c :: text := by
  obtain ⟨d, text, rfl⟩ := List.exists_cons_of_ne_nil h
  simp [List.cons_prefix_cons]

theorem not_pair_isPrefix {α : Type} {a b c : α} {text : List α}
    (h : ∀ rest, c = a → text = b :: rest → False) : ¬[a, b] <+: c :: text := by
  rintro ⟨rest, hrest⟩
  obtain ⟨rfl, rfl⟩ := List.cons.inj hrest
  exact h rest rfl rfl

/-- The rest of a block comment behind its opening, closing included. -/
inductive CommentRest : List Char → Prop
  | close : CommentRest ['*', '/']
  | nested {inner rest : List Char} (hinner : CommentRest inner) (hrest : CommentRest rest) :
      CommentRest ('/' :: '*' :: (inner ++ rest))
  | char {c : Char} {rest : List Char} (hopening : ¬['/', '*'] <+: c :: rest)
      (hclosing : ¬['*', '/'] <+: c :: rest) (hrest : CommentRest rest) : CommentRest (c :: rest)

theorem CommentRest.ne_nil {text : List Char} (h : CommentRest text) : text ≠ [] := by
  cases h <;> simp

namespace Form

/-- A text that closes a comment and as many around it as `outer` tells. -/
def Closes : (outer : Nat) → List Char → Prop
  | 0, text => CommentRest text
  | outer + 1, text => ∃ first more, CommentRest first ∧ Closes outer more ∧ text = first ++ more

namespace Closes

variable {outer : Nat} {text : List Char}

theorem nested {inner : List Char} (hinner : CommentRest inner) (h : Closes outer text) :
    Closes outer ('/' :: '*' :: (inner ++ text)) := by
  cases outer with
  | zero => exact .nested hinner h
  | succ outer =>
      obtain ⟨first, more, hfirst, hmore, rfl⟩ := h
      exact ⟨_, more, .nested hinner hfirst, hmore, by simp⟩

theorem char {c : Char} (hopening : ¬['/', '*'] <+: c :: text)
    (hclosing : ¬['*', '/'] <+: c :: text) (h : Closes outer text) : Closes outer (c :: text) := by
  cases outer with
  | zero => exact .char hopening hclosing h
  | succ outer =>
      obtain ⟨first, more, hfirst, hmore, rfl⟩ := h
      rw [pair_isPrefix_append hfirst.ne_nil] at hopening hclosing
      exact ⟨_, more, .char hopening hclosing hfirst, hmore, rfl⟩

end Closes

theorem closes_of_closing? {inner : Nat} {cs : List Char} {read n : Nat}
    (h : closing? inner cs read = some n) :
    ∃ text rest, cs = text ++ rest ∧ n = read + text.length ∧ Closes inner text := by
  fun_induction closing? inner cs read with
  | case1 inner cs read ih =>
      obtain ⟨_, rest, rfl, rfl, first, more, hfirst, hmore, rfl⟩ := ih h
      refine ⟨_, rest, rfl, ?_, hmore.nested hfirst⟩
      simp only [List.length_cons]
      omega
  | case2 cs read =>
      obtain rfl := Option.some.inj h
      exact ⟨['*', '/'], cs, rfl, rfl, .close⟩
  | case3 cs read inner ih =>
      obtain ⟨text, rest, rfl, rfl, htext⟩ := ih h
      refine ⟨'*' :: '/' :: text, rest, rfl, ?_, ['*', '/'], text, .close, htext, rfl⟩
      simp only [List.length_cons]
      omega
  | case4 inner c cs read hopening hclosing hclosing' ih =>
      obtain ⟨text, rest, rfl, rfl, htext⟩ := ih h
      have hcut : c :: text <+: c :: (text ++ rest) := ⟨rest, rfl⟩
      refine ⟨c :: text, rest, rfl, by simp only [List.length_cons]; omega,
        htext.char (fun h => not_pair_isPrefix hopening (h.trans hcut))
          (fun h => not_pair_isPrefix (fun rest => ?_) (h.trans hcut))⟩
      cases inner with
      | zero => exact hclosing rest rfl
      | succ inner => exact hclosing' inner rest rfl
  | case5 => cases h

end Form

namespace CommentRest

theorem closing?_append {text : List Char} (h : CommentRest text) (inner : Nat)
    (more : List Char) (read : Nat) :
    Form.closing? (inner + 1) (text ++ more) read = Form.closing? inner more (read + text.length) ∧
      Form.closing? 0 (text ++ more) read = some (read + text.length) := by
  induction h generalizing inner more read with
  | close => exact ⟨rfl, rfl⟩
  | @nested first rest _ _ ihinner ihrest =>
      have hlength : read + ('/' :: '*' :: (first ++ rest)).length =
          read + 2 + first.length + rest.length := by
        simp only [List.length_cons, List.length_append]
        omega
      simp only [List.cons_append, List.append_assoc, Form.closing?]
      rw [(ihinner (inner + 1) _ _).1, (ihinner 0 _ _).1, hlength]
      exact ihrest inner more _
  | @char c rest hopening hclosing hrest ih =>
      rw [← pair_isPrefix_append hrest.ne_nil more] at hopening hclosing
      have hstep : ∀ inner, Form.closing? inner (c :: (rest ++ more)) read =
          Form.closing? inner (rest ++ more) (read + 1) := by
        intro inner
        rw [Form.closing?]
        · rintro cs rfl hcs
          exact hopening ⟨cs, by rw [hcs]; rfl⟩
        · rintro cs - rfl hcs
          exact hclosing ⟨cs, by rw [hcs]; rfl⟩
        · rintro inner cs - rfl hcs
          exact hclosing ⟨cs, by rw [hcs]; rfl⟩
      rw [List.cons_append, hstep, hstep, List.length_cons, Nat.add_comm rest.length,
        ← Nat.add_assoc]
      exact ih inner more (read + 1)

/-- A text begins with the rest of one comment at most. -/
theorem unique {text text' more more' : List Char} (h : CommentRest text)
    (h' : CommentRest text') (heq : text ++ more = text' ++ more') :
    text = text' ∧ more = more' := by
  have hend := (h.closing?_append 0 more 0).2
  have hend' := (h'.closing?_append 0 more' 0).2
  rw [heq, hend'] at hend
  refine List.append_inj heq ?_
  simpa using (Option.some.inj hend).symm

end CommentRest
end AnnotationScan

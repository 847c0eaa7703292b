import RefCache.Predicate

/-! # Tests of text keys

A small language of questions about text keys, from which predicates are made. All but `script` look at
the key alone; a `script` gives its answers in order whatever the keys are, and says no once it has run
out of answers. -/

namespace RefCache

/-- A question about a text key. -/
inductive KeyTest where
  | every
  | never
  | equals (text : String)
  | startsWith (text : String)
  | endsWith (text : String)
  | includes (text : String)
  /-- More bytes in UTF-8 than so many. -/
  | longerThan (bytes : Nat)
  | oneOf (texts : List String)
  | negation (test : KeyTest)
  | script (answers : List Bool)
deriving Inhabited

namespace KeyTest

/-- The first list occurs in the second without gaps. -/
def occursIn (part : List Char) : List Char → Bool
  | [] => part.isEmpty
  | c :: rest => part.isPrefixOf (c :: rest) || occursIn part rest

/-- The answer for a key after so many keys have been asked. -/
def holds : KeyTest → Nat → String → Bool
  | every, _, _ => true
  | never, _, _ => false
  | equals text, _, k => k = text
  | startsWith text, _, k => text.toList.isPrefixOf k.toList
  | endsWith text, _, k => text.toList.isSuffixOf k.toList
  | includes text, _, k => occursIn text.toList k.toList
  | longerThan bytes, _, k => k.utf8ByteSize > bytes
  | oneOf texts, _, k => texts.contains k
  | negation test, asked, k => !test.holds asked k
  | script answers, asked, _ => answers[asked]?.getD false

/-- The predicate that asks the question. -/
def toPredicate (t : KeyTest) : Predicate String where
  answer asked k := t.holds asked.length k

end KeyTest

end RefCache

/-!
# Built-in names

The names that every Python module can read without binding them, and the scalars among them whose
types are primitive.
-/

namespace NameAtlas.Python

/-- The names that an unbound read falls back to. -/
def builtinNames : List String :=
  ["abs", "aiter", "all", "anext", "any", "ascii", "bin", "bool", "breakpoint", "bytearray",
    "bytes", "callable", "chr", "classmethod", "compile", "complex", "delattr", "dict", "dir",
    "divmod", "enumerate", "eval", "exec", "filter", "float", "format", "frozenset", "getattr",
    "globals", "hasattr", "hash", "help", "hex", "id", "input", "int", "isinstance", "issubclass",
    "iter", "len", "list", "locals", "map", "max", "memoryview", "min", "next", "object", "oct",
    "open", "ord", "pow", "print", "property", "range", "repr", "reversed", "round", "set",
    "setattr", "slice", "sorted", "staticmethod", "str", "sum", "super", "tuple", "type", "vars",
    "zip", "__import__", "__name__", "__file__", "NotImplemented", "Ellipsis", "BaseException",
    "Exception", "ArithmeticError", "AssertionError", "AttributeError", "EOFError", "ImportError",
    "IndexError", "KeyError", "KeyboardInterrupt", "LookupError", "MemoryError", "NameError",
    "NotImplementedError", "OSError", "OverflowError", "RecursionError", "RuntimeError",
    "StopIteration", "SystemExit", "TypeError", "ValueError", "ZeroDivisionError"]

/-- The built-in scalars. -/
def scalarNames : List String := ["int", "float", "str", "bool", "bytes", "complex"]

/-- True for built-in names. -/
def isBuiltin (name : String) : Bool := builtinNames.contains name

/-- True for the names of built-in scalars. -/
def isScalar (name : String) : Bool := scalarNames.contains name

/-- Every scalar is built in. -/
theorem isBuiltin_of_isScalar {name : String} (h : isScalar name = true) :
    isBuiltin name = true := by
  have h' : name ∈ scalarNames := by simpa [isScalar] using h
  simp only [scalarNames, List.mem_cons, List.not_mem_nil, or_false] at h'
  rcases h' with h | h | h | h | h | h <;> subst h <;> decide

end NameAtlas.Python

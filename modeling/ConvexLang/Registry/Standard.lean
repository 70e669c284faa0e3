import ConvexLang.Registry

/-!
# The standard atoms

Elementwise functions of one argument, aggregates of any number of arguments and
functions of two arguments.
-/

namespace ConvexLang.Registry

/-- The standard atoms with what is known about them. -/
def standardEntries : List (String × Profile) :=
  [("abs", ⟨.convex, .positive, some 1⟩),
    ("exp", ⟨.convex, .positive, some 1⟩),
    ("square", ⟨.convex, .positive, some 1⟩),
    ("sqrt", ⟨.concave, .positive, some 1⟩),
    ("log", ⟨.concave, .unknown, some 1⟩),
    ("entr", ⟨.concave, .unknown, some 1⟩),
    ("inv_pos", ⟨.convex, .positive, some 1⟩),
    ("pos", ⟨.convex, .positive, some 1⟩),
    ("neg", ⟨.convex, .positive, some 1⟩),
    ("huber", ⟨.convex, .positive, some 1⟩),
    ("max", ⟨.convex, .unknown, none⟩),
    ("min", ⟨.concave, .unknown, none⟩),
    ("norm2", ⟨.convex, .positive, none⟩),
    ("norm1", ⟨.convex, .positive, none⟩),
    ("norm_inf", ⟨.convex, .positive, none⟩),
    ("geo_mean", ⟨.concave, .positive, none⟩),
    ("log_sum_exp", ⟨.convex, .unknown, none⟩),
    ("quad_over_lin", ⟨.convex, .positive, some 2⟩),
    ("pow", ⟨.convex, .positive, some 2⟩),
    ("kl_div", ⟨.convex, .positive, some 2⟩)]

/-- The registry of the standard atoms. -/
def standard : Registry :=
  .ofList standardEntries

end ConvexLang.Registry

import TDB.SqlGrammar

namespace TDB.Sql

open TableParser

/-! ## The tables of `yacc_sql.cpp` -/

def yypact : List ℤ :=
  [6, 115, 102, 42, 42, -56, 11, -249, -22, 31, -30, -249, -249, -249, -249, -249, 14, 39, 6, 101,
   107, -249, -249, -249, -249, -249, -249, -249, -249, -249, -249, -249, -249, -249, -249, -249,
   -249, -249, -249, -249, -249, -249, 45, 51, 69, 138, 82, 97, -249, 162, -249, -249, -249, -249,
   -249, -249, -249, 128, -249, -249, 188, 163, 166, -249, -249, -249, -249, 53, 24, -249, -249,
   144, -249, -249, 120, 132, 156, 147, 151, -249, -249, -249, -249, -16, 185, 159, 142, -249,
   168, 176, 119, 16, 21, -249, -249, 94, -249, 66, -249, -34, 213, 213, 152, 162, 162, -249, 158,
   177, 191, 169, 145, 167, 170, 231, 172, 174, 193, 183, 184, 145, 223, -249, -249, 163, -249,
   -249, 205, 163, -5, 232, 238, 240, -249, -249, 163, 53, 53, -17, 214, 241, 244, 111, -249, 206,
   243, -249, 226, 246, 248, -249, 164, 249, 250, 204, -249, 251, -249, -249, 25, -249, 3, 163,
   -249, -249, -249, -249, -249, 207, -249, 225, 191, 158, -249, 145, 254, 218, 162, 91, -249,
   112, 162, 169, 191, 275, 170, 227, -249, -249, -249, -249, -249, 12, 172, 265, 219, 268, -249,
   163, 163, 163, -249, -249, 158, 234, 241, 251, 244, -249, 162, 95, 19, -23, -249, 162, -249,
   -249, -249, -249, -249, -249, 162, 111, 111, 95, 243, -249, 222, -249, 231, -249, 228, 277,
   249, -249, 270, 229, -249, -249, -249, 245, 281, 242, -249, 254, 95, -249, 282, -249, 162, 95,
   95, -249, -249, -249, -249, -249, -249, 278, -249, -249, 233, 279, 270, 111, 214, 170, 111,
   291, -249, -249, 95, 33, 270, -249, 283, -249, -249, -249, -249, 293, -249, -249, 289, -249,
   -249, 170, -249, -249, 284, 165, 170, -249, -249, -249]

def yydefact : List ℕ :=
  [0, 0, 0, 0, 0, 0, 0, 26, 0, 0, 0, 27, 28, 29, 25, 24, 0, 0, 0, 0, 155, 23, 22, 15, 16, 17, 18,
   10, 11, 12, 13, 14, 8, 9, 5, 7, 6, 4, 3, 19, 20, 21, 0, 0, 0, 0, 0, 0, 72, 0, 55, 56, 57, 58,
   59, 66, 68, 117, 70, 71, 0, 110, 0, 98, 94, 97, 99, 103, 110, 90, 95, 0, 32, 31, 0, 0, 0, 0, 0,
   153, 1, 156, 2, 0, 0, 0, 0, 30, 0, 117, 94, 0, 0, 66, 68, 0, 100, 0, 106, 0, 0, 0, 0, 0, 0,
   108, 0, 0, 131, 0, 0, 0, 0, 0, 0, 0, 0, 0, 0, 0, 0, 96, 118, 110, 67, 69, 117, 110, 110, 0, 0,
   0, 101, 102, 110, 104, 105, 124, 127, 122, 0, 133, 73, 0, 75, 154, 0, 119, 0, 39, 0, 41, 0, 0,
   37, 64, 63, 107, 0, 111, 0, 110, 113, 93, 91, 92, 109, 0, 125, 0, 131, 0, 121, 0, 61, 0, 0, 0,
   132, 134, 0, 0, 131, 0, 0, 0, 50, 51, 52, 53, 54, 44, 0, 0, 0, 0, 65, 110, 110, 110, 114, 126,
   0, 79, 122, 64, 0, 60, 0, 142, 0, 0, 150, 0, 144, 145, 146, 147, 148, 149, 0, 133, 133, 77, 75,
   74, 0, 120, 0, 48, 0, 0, 41, 38, 35, 0, 112, 116, 115, 129, 0, 81, 123, 61, 143, 138, 0, 151,
   0, 140, 137, 135, 136, 76, 152, 40, 49, 0, 46, 42, 0, 0, 35, 133, 127, 0, 133, 83, 62, 139,
   141, 43, 35, 34, 0, 130, 128, 80, 82, 0, 78, 47, 0, 36, 33, 0, 45, 84, 85, 87, 0, 89, 88, 86]

def yypgoto : List ℤ :=
  [-249, -249, 294, -249, -249, -249, -249, -249, -249, -249, -249, -249, -249, -248, -249, -249,
   -249, 79, 121, -249, -249, -249, -249, 71, -134, 160, -45, -249, -249, 92, 136, -108, -249,
   -249, -249, 28, -249, -249, -249, -48, 72, -3, 315, -65, -97, -177, -249, 116, -162, 57, -249,
   -93, -190, -249, -249, -249, -249, -249, -249]

def yydefgoto : List ℕ :=
  [0, 19, 20, 21, 22, 23, 24, 25, 26, 27, 28, 29, 30, 261, 31, 32, 33, 193, 151, 257, 191, 62, 34,
   207, 63, 120, 64, 35, 36, 182, 144, 37, 241, 267, 280, 287, 288, 38, 65, 66, 67, 177, 69, 98,
   70, 148, 138, 172, 139, 170, 264, 142, 178, 179, 220, 39, 40, 41, 82]

def yytable : List ℤ :=
  [68, 68, 131, 105, 90, 149, 174, 227, 112, 204, 1, 2, 96, 247, 274, 147, 72, 3, 4, 73, 5, 97,
   129, 74, 283, 6, 7, 8, 9, 10, 229, 251, 252, 11, 12, 13, 230, 245, 89, 248, 239, 121, 76, 130,
   167, 113, 91, 231, 14, 15, 97, 281, 132, 133, 246, 168, 160, 16, 157, 198, 48, 17, 159, 162,
   18, 145, 49, 161, 282, 166, 103, 104, 243, 275, 155, 199, 278, 203, 75, 50, 51, 52, 53, 54, 48,
   102, 77, 147, 277, 225, 49, 103, 104, 122, 128, 78, 200, 122, 123, 103, 104, 80, 197, 50, 51,
   52, 53, 54, 210, 46, 81, 47, 55, 56, 57, 58, 59, 83, 60, 61, 255, 42, 43, 84, 44, 45, 211, 212,
   205, 48, 100, 101, 236, 237, 238, 49, 55, 56, 126, 58, 59, 85, 60, 127, -64, 119, 175, 86, 50,
   51, 52, 53, 54, 213, 87, 214, 215, 216, 217, 218, 219, 221, 222, 48, 124, 125, 103, 104, 147,
   88, 103, 104, 92, 209, 176, 135, 136, 223, 291, 292, 48, 55, 56, 89, 58, 59, 49, 60, 289, 97,
   99, 106, 107, 289, 186, 187, 188, 189, 190, 50, 51, 52, 53, 54, 108, 244, 48, 109, 111, 114,
   249, 110, 49, 115, 116, 55, 56, 250, 58, 59, 118, 95, 117, 140, 134, 50, 51, 52, 53, 54, 137,
   48, 55, 56, 89, 58, 59, 49, 60, 141, 146, 143, 89, 4, 150, 270, 152, 153, 156, 158, 50, 51, 52,
   53, 54, 154, 122, 163, 93, 94, 89, 58, 59, 164, 95, 165, 169, 171, 173, 181, 180, 183, 184,
   185, 194, 192, 195, 119, 202, 201, 206, 208, 226, 55, 56, 89, 58, 59, 228, 95, 233, 234, 235,
   240, 254, 258, 260, 265, 256, 263, 269, 262, 266, 271, 273, 272, 279, 286, 284, 285, 290, 259,
   79, 232, 268, 196, 253, 224, 293, 71, 242, 276]

def yycheck : List ℤ :=
  [3, 4, 99, 68, 49, 113, 140, 184, 24, 171, 4, 5, 60, 36, 262, 112, 72, 11, 12, 8, 14, 26, 56,
   45, 272, 19, 20, 21, 22, 23, 18, 221, 222, 27, 28, 29, 24, 18, 72, 62, 202, 25, 72, 77, 61, 61,
   49, 35, 42, 43, 26, 18, 100, 101, 35, 72, 61, 51, 123, 56, 18, 55, 127, 128, 58, 110, 24, 72,
   35, 134, 75, 76, 206, 263, 119, 72, 266, 170, 47, 37, 38, 39, 40, 41, 18, 61, 72, 184, 265,
   182, 24, 75, 76, 72, 97, 56, 161, 72, 77, 75, 76, 0, 77, 37, 38, 39, 40, 41, 17, 7, 3, 9, 70,
   71, 72, 73, 74, 72, 76, 77, 228, 6, 7, 72, 9, 10, 35, 36, 173, 18, 77, 78, 197, 198, 199, 24,
   70, 71, 72, 73, 74, 72, 76, 77, 25, 26, 35, 9, 37, 38, 39, 40, 41, 62, 72, 64, 65, 66, 67, 68,
   69, 49, 50, 18, 70, 71, 75, 76, 265, 72, 75, 76, 44, 176, 63, 103, 104, 180, 13, 14, 18, 70,
   71, 72, 73, 74, 24, 76, 285, 26, 24, 47, 72, 290, 30, 31, 32, 33, 34, 37, 38, 39, 40, 41, 72,
   208, 18, 51, 57, 24, 213, 64, 24, 54, 72, 70, 71, 220, 73, 74, 44, 76, 54, 46, 72, 37, 38, 39,
   40, 41, 72, 18, 70, 71, 72, 73, 74, 24, 76, 48, 73, 72, 72, 12, 72, 248, 72, 54, 25, 44, 37,
   38, 39, 40, 41, 72, 72, 25, 70, 71, 72, 73, 74, 25, 76, 25, 52, 26, 24, 26, 64, 45, 26, 25, 24,
   26, 72, 26, 53, 72, 26, 63, 7, 70, 71, 72, 73, 74, 61, 76, 25, 72, 24, 59, 72, 18, 26, 16, 70,
   54, 18, 72, 60, 25, 25, 72, 15, 18, 25, 16, 26, 232, 18, 192, 243, 155, 224, 181, 290, 4, 204,
   264]

def yyr1 : List ℕ :=
  [0, 79, 80, 81, 81, 81, 81, 81, 81, 81, 81, 81, 81, 81, 81, 81, 81, 81, 81, 81, 81, 81, 81, 81,
   82, 83, 84, 85, 86, 87, 88, 89, 90, 91, 91, 92, 92, 93, 94, 95, 95, 96, 96, 97, 97, 97, 97, 97,
   97, 98, 99, 99, 99, 99, 99, 100, 100, 100, 100, 100, 101, 102, 102, 103, 104, 104, 105, 105,
   105, 105, 105, 105, 105, 106, 107, 108, 108, 109, 110, 111, 111, 112, 112, 113, 113, 114, 114,
   115, 115, 115, 116, 117, 117, 117, 118, 118, 118, 118, 118, 119, 119, 119, 119, 120, 120, 120,
   121, 121, 121, 121, 122, 122, 122, 122, 122, 122, 122, 123, 123, 124, 124, 125, 126, 126, 127,
   127, 127, 128, 128, 129, 129, 130, 130, 131, 131, 131, 131, 132, 132, 132, 132, 132, 132, 132,
   133, 133, 133, 133, 133, 133, 133, 133, 134, 135, 136, 137, 137]

def yyr2 : List ℕ :=
  [0, 2, 2, 1, 1, 1, 1, 1, 1, 1, 1, 1, 1, 1, 1, 1, 1, 1, 1, 1, 1, 1, 1, 1, 1, 1, 1, 1, 1, 1, 3, 2,
   2, 10, 9, 0, 3, 5, 7, 5, 8, 0, 3, 5, 2, 7, 4, 6, 3, 1, 1, 1, 1, 1, 1, 1, 1, 1, 1, 1, 6, 0, 3,
   4, 0, 3, 1, 2, 1, 2, 1, 1, 1, 4, 6, 0, 3, 3, 9, 0, 3, 0, 2, 0, 3, 1, 3, 1, 2, 2, 2, 4, 4, 4, 1,
   1, 3, 1, 1, 1, 2, 3, 3, 1, 3, 3, 2, 4, 2, 4, 0, 3, 5, 3, 4, 5, 5, 1, 3, 1, 3, 2, 0, 3, 1, 2, 3,
   0, 5, 0, 2, 0, 2, 0, 1, 3, 3, 3, 3, 4, 3, 4, 2, 3, 1, 1, 1, 1, 1, 1, 1, 2, 7, 2, 4, 0, 1]

/-- The tables, with `YYPACT_NINF`, `YYNTOKENS`, `YYFINAL` and `YYMAXDEPTH`. -/
def sqlTables : Tables :=
  ⟨yypact, -249, yydefact, yypgoto, yydefgoto, yytable, yycheck, yyr1, yyr2, 79, 80, 10000⟩

/-! ## The automaton behind the tables -/

/-- The rules by the numbers of their symbols; there is no rule `0`. -/
def grammar : List (ℕ × List ℕ) :=
  [(0, []), (79, [80, 0]), (80, [81, 137]), (81, [116]), (81, [110]), (81, [101]), (81, [107]),
   (81, [106]), (81, [94]), (81, [95]), (81, [88]), (81, [89]), (81, [90]), (81, [91]),
   (81, [93]), (81, [84]), (81, [85]), (81, [86]), (81, [87]), (81, [134]), (81, [135]),
   (81, [136]), (81, [83]), (81, [82]), (82, [43]), (83, [42]), (84, [20]), (85, [27]),
   (86, [28]), (87, [29]), (88, [5, 7, 72]), (89, [19, 8]), (90, [14, 72]),
   (91, [4, 10, 9, 72, 54, 72, 24, 72, 92, 25]), (91, [4, 9, 72, 54, 72, 24, 72, 92, 25]),
   (92, []), (92, [26, 72, 92]), (93, [5, 9, 72, 54, 72]), (94, [4, 7, 72, 24, 97, 96, 25]),
   (95, [4, 6, 72, 61, 110]), (95, [4, 6, 72, 24, 124, 25, 61, 110]), (96, []),
   (96, [26, 97, 96]), (97, [72, 99, 24, 98, 25]), (97, [72, 99]),
   (97, [72, 99, 24, 98, 25, 35, 18]), (97, [72, 99, 35, 18]), (97, [72, 99, 24, 98, 25, 18]),
   (97, [72, 99, 18]), (98, [70]), (99, [30]), (99, [31]), (99, [32]), (99, [33]), (99, [34]),
   (100, [37]), (100, [38]), (100, [39]), (100, [40]), (100, [41]),
   (101, [21, 45, 72, 46, 103, 102]), (102, []), (102, [26, 103, 102]), (103, [24, 105, 104, 25]),
   (104, []), (104, [26, 105, 104]), (105, [70]), (105, [76, 70]), (105, [71]), (105, [76, 71]),
   (105, [73]), (105, [74]), (105, [18]), (106, [22, 47, 72, 130]),
   (107, [23, 72, 51, 109, 108, 130]), (108, []), (108, [26, 109, 108]), (109, [72, 64, 120]),
   (110, [12, 121, 47, 125, 128, 130, 111, 112, 113]), (111, []), (111, [59, 16, 124]), (112, []),
   (112, [60, 131]), (113, []), (113, [15, 16, 114]), (114, [115]), (114, [115, 26, 114]),
   (115, [123]), (115, [123, 14]), (115, [123, 13]), (116, [11, 121]), (117, [100, 24, 77, 25]),
   (117, [100, 24, 123, 25]), (117, [100, 24, 56, 25]), (118, [105]), (118, [123]),
   (118, [24, 120, 25]), (118, [117]), (118, [103]), (119, [118]), (119, [76, 118]),
   (119, [119, 77, 118]), (119, [119, 78, 118]), (120, [119]), (120, [120, 75, 119]),
   (120, [120, 76, 119]), (121, [77, 122]), (121, [72, 44, 77, 122]), (121, [120, 122]),
   (121, [120, 61, 72, 122]), (122, []), (122, [26, 77, 122]), (122, [26, 72, 44, 77, 122]),
   (122, [26, 120, 122]), (122, [26, 120, 72, 122]), (122, [26, 120, 61, 72, 122]),
   (122, [26, 120, 61, 56, 122]), (123, [72]), (123, [72, 44, 72]), (124, [123]),
   (124, [123, 26, 124]), (125, [127, 126]), (126, []), (126, [26, 127, 126]), (127, [72]),
   (127, [72, 72]), (127, [72, 61, 72]), (128, []), (128, [52, 53, 127, 129, 128]), (129, []),
   (129, [54, 131]), (130, []), (130, [48, 131]), (131, []), (131, [132]), (131, [132, 49, 131]),
   (131, [132, 50, 131]), (132, [120, 133, 120]), (132, [120, 17, 18]), (132, [120, 17, 35, 18]),
   (132, [120, 62, 120]), (132, [120, 35, 62, 120]), (132, [63, 120]), (132, [35, 63, 120]),
   (133, [64]), (133, [65]), (133, [66]), (133, [67]), (133, [68]), (133, [69]), (133, [36]),
   (133, [35, 36]), (134, [55, 56, 57, 73, 45, 7, 72]), (135, [58, 81]), (136, [51, 72, 64, 105]),
   (137, []), (137, [3])]

/-- The entry of a state in a list that is kept in pieces. -/
def entry {A : Type} (pieces : List (List A)) (default : A) (state : ℕ) : A :=
  (pieces.getD (state / 17) []).getD (state % 17) default

/-- `yystos`: the symbol in front of each state. -/
def yystos : List (List ℕ) :=
  [[0, 4, 5, 11, 12, 14, 19, 20, 21, 22, 23, 27, 28, 29, 42, 43, 51],
   [55, 58, 80, 81, 82, 83, 84, 85, 86, 87, 88, 89, 90, 91, 93, 94, 95],
   [101, 106, 107, 110, 116, 134, 135, 136, 6, 7, 9, 10, 7, 9, 18, 24, 37],
   [38, 39, 40, 41, 70, 71, 72, 73, 74, 76, 77, 100, 103, 105, 117, 118, 119],
   [120, 121, 123, 121, 72, 8, 45, 47, 72, 72, 56, 81, 0, 3, 137, 72, 72],
   [72, 9, 72, 72, 72, 105, 120, 44, 70, 71, 76, 118, 26, 122, 24, 77, 78],
   [61, 75, 76, 122, 47, 72, 72, 51, 64, 57, 24, 61, 24, 54, 72, 54, 44],
   [26, 104, 25, 72, 77, 70, 71, 72, 77, 120, 56, 77, 123, 118, 118, 72, 119],
   [119, 72, 125, 127, 46, 48, 130, 72, 109, 105, 73, 123, 124, 110, 72, 97, 72],
   [54, 72, 105, 25, 122, 44, 122, 61, 72, 122, 25, 25, 25, 122, 61, 72, 52],
   [128, 26, 126, 24, 103, 35, 63, 120, 131, 132, 64, 26, 108, 45, 26, 25, 30],
   [31, 32, 33, 34, 99, 26, 96, 24, 72, 104, 77, 56, 72, 122, 72, 53, 130],
   [127, 105, 26, 102, 63, 120, 17, 35, 36, 62, 64, 65, 66, 67, 68, 69, 133],
   [49, 50, 120, 109, 130, 7, 124, 61, 18, 24, 35, 97, 25, 72, 24, 122, 122],
   [122, 127, 59, 111, 126, 103, 120, 18, 35, 36, 62, 120, 120, 131, 131, 108, 72],
   [110, 70, 98, 18, 96, 26, 92, 72, 54, 129, 16, 60, 112, 102, 18, 120, 25],
   [72, 25, 92, 131, 128, 124, 131, 15, 113, 18, 35, 92, 25, 16, 18, 114, 115],
   [123, 26, 13, 14, 114]]

/-- The items of each state, as a rule with the number of its symbols in front of the state. -/
def items : List (List (List (ℕ × ℕ))) :=
  [[[], [(33, 1), (34, 1), (38, 1), (39, 1), (40, 1)], [(30, 1), (37, 1)], [(90, 1)], [(78, 1)],
   [(32, 1)], [(31, 1)], [(26, 1)], [(60, 1)], [(73, 1)], [(74, 1)], [(27, 1)], [(28, 1)],
   [(29, 1)], [(25, 1)], [(24, 1)], [(154, 1)]],
   [[(152, 1)], [(153, 1)], [(1, 1)], [(2, 1)], [(23, 1)], [(22, 1)], [(15, 1)], [(16, 1)],
    [(17, 1)], [(18, 1)], [(10, 1)], [(11, 1)], [(12, 1)], [(13, 1)], [(14, 1)], [(8, 1)],
    [(9, 1)]],
   [[(5, 1)], [(7, 1)], [(6, 1)], [(4, 1)], [(3, 1)], [(19, 1)], [(20, 1)], [(21, 1)],
    [(39, 2), (40, 2)], [(38, 2)], [(34, 2)], [(33, 2)], [(30, 2)], [(37, 2)], [(72, 1)],
    [(63, 1), (96, 1)], [(55, 1)]],
   [[(56, 1)], [(57, 1)], [(58, 1)], [(59, 1)], [(66, 1)], [(68, 1)],
    [(107, 1), (117, 1), (118, 1)], [(70, 1)], [(71, 1)], [(67, 1), (69, 1), (100, 1)],
    [(106, 1)], [(91, 1), (92, 1), (93, 1)], [(98, 1)], [(94, 1)], [(97, 1)], [(99, 1)],
    [(101, 1), (102, 1), (103, 1)]],
   [[(104, 1), (105, 1), (108, 1), (109, 1)], [(90, 2)], [(95, 1)], [(78, 2)], [(32, 2)],
    [(31, 2)], [(60, 2)], [(73, 2)], [(74, 2)], [(154, 2)], [(152, 2)], [(153, 2)], [(1, 2)],
    [(156, 1)], [(2, 2)], [(39, 3), (40, 3)], [(38, 3)]],
   [[(34, 3)], [(33, 3)], [(30, 3)], [(37, 3)], [(117, 1), (118, 1)], [(63, 2), (94, 1)],
    [(96, 2), (104, 1), (105, 1)], [(107, 2), (118, 2)], [(66, 1), (67, 2)], [(68, 1), (69, 2)],
    [(67, 1), (69, 1)], [(100, 2)], [(111, 1), (112, 1), (113, 1), (114, 1), (115, 1), (116, 1)],
    [(106, 2)], [(91, 2), (92, 2), (93, 2)], [(101, 2)], [(102, 2)]],
   [[(109, 2)], [(104, 2)], [(105, 2)], [(108, 2)], [(78, 3)], [(60, 3)], [(73, 3)], [(74, 3)],
    [(154, 3)], [(152, 3)], [(40, 4)], [(39, 4)], [(38, 4)], [(34, 4)], [(33, 4)], [(37, 4)],
    [(118, 2)]],
   [[(65, 1)], [(63, 3)], [(96, 3)], [(118, 3)], [(107, 3)], [(67, 2)], [(69, 2)],
    [(112, 2), (117, 1), (118, 1)], [(111, 2)], [(104, 1), (105, 1), (113, 2), (114, 2), (115, 2),
    (116, 2)], [(93, 3)], [(91, 3)], [(92, 3)], [(101, 3)], [(102, 3)], [(109, 3)],
    [(101, 1), (102, 1), (104, 3)]],
   [[(101, 1), (102, 1), (105, 3)], [(124, 1), (125, 1), (126, 1)], [(78, 4)], [(121, 1)],
    [(60, 4)], [(132, 1)], [(73, 4)], [(77, 1)], [(74, 4)], [(154, 4)], [(152, 4)],
    [(119, 1), (120, 1)], [(40, 5)], [(39, 5)],
    [(43, 1), (44, 1), (45, 1), (46, 1), (47, 1), (48, 1)], [(38, 5)], [(34, 5)]],
   [[(33, 5)], [(37, 5)], [(65, 2)], [(63, 4)], [(107, 4)], [(112, 3), (118, 2)], [(111, 3)],
    [(115, 3), (116, 3)], [(114, 3)], [(113, 3)], [(93, 4)], [(91, 4)], [(92, 4)], [(109, 4)],
    [(126, 2)], [(125, 2)], [(128, 1)]],
   [[(78, 5)], [(123, 1)], [(121, 2)], [(63, 1)], [(60, 5)], [(143, 1)], [(142, 1)], [(104, 1),
    (105, 1), (137, 1), (138, 1), (139, 1), (140, 1), (141, 1)], [(132, 2)],
    [(134, 1), (135, 1), (136, 1)], [(77, 2)], [(76, 1)], [(74, 5)], [(152, 5)], [(120, 2)],
    [(40, 6)], [(50, 1)]],
   [[(51, 1)], [(52, 1)], [(53, 1)], [(54, 1)],
    [(43, 2), (44, 2), (45, 2), (46, 2), (47, 2), (48, 2)], [(42, 1)], [(38, 6)], [(34, 6)],
    [(33, 6)], [(65, 3)], [(112, 4)], [(116, 4)], [(115, 4)], [(114, 4)], [(126, 3)], [(128, 2)],
    [(78, 6)]],
   [[(123, 2)], [(63, 2)], [(62, 1)], [(60, 6)], [(143, 2)], [(104, 1), (105, 1), (142, 2)],
    [(138, 2), (139, 2)], [(141, 2), (151, 1)], [(150, 1)], [(140, 2)], [(144, 1)], [(145, 1)],
    [(146, 1)], [(147, 1)], [(148, 1)], [(149, 1)], [(137, 2)]],
   [[(135, 2)], [(136, 2)], [(77, 3), (104, 1), (105, 1)], [(76, 2)], [(74, 6)], [(152, 6)],
    [(120, 3)], [(40, 7)], [(48, 3)], [(43, 3), (45, 3), (47, 3)], [(46, 3)], [(42, 2)],
    [(38, 7)], [(34, 7)], [(33, 7)], [(112, 5)], [(116, 5)]],
   [[(115, 5)], [(128, 3)], [(80, 1)], [(78, 7)], [(123, 3)], [(62, 2)],
    [(104, 1), (105, 1), (143, 3)], [(138, 3)], [(139, 3)], [(151, 2)], [(141, 3)],
    [(104, 1), (105, 1), (140, 3)], [(104, 1), (105, 1), (137, 3)], [(135, 3)], [(136, 3)],
    [(76, 3)], [(152, 7)]],
   [[(40, 8)], [(49, 1)], [(43, 4), (45, 4), (47, 4)], [(46, 4)], [(42, 3)], [(36, 1)], [(34, 8)],
    [(33, 8)], [(130, 1)], [(128, 4)], [(80, 2)], [(82, 1)], [(78, 8)], [(62, 3)], [(139, 4)],
    [(104, 1), (105, 1), (141, 4)], [(43, 5), (45, 5), (47, 5)]],
   [[(36, 2)], [(34, 9)], [(33, 9)], [(130, 2)], [(128, 5)], [(80, 3)], [(82, 2)], [(84, 1)],
    [(78, 9)], [(47, 6)], [(45, 6)], [(36, 3)], [(33, 10)], [(84, 2)], [(45, 7)], [(84, 3)],
    [(85, 1), (86, 1)]],
   [[(87, 1), (88, 1), (89, 1)], [(86, 2)], [(89, 2)], [(88, 2)], [(86, 3)]]]

/-- The rules that may begin in each state. -/
def predicted : List (List (List ℕ)) :=
  [[[1, 2, 3, 4, 5, 6, 7, 8, 9, 10, 11, 12, 13, 14, 15, 16, 17, 18, 19, 20, 21, 22, 23, 24, 25, 26,
   27, 28, 29, 30, 31, 32, 33, 34, 37, 38, 39, 40, 60, 73, 74, 78, 90, 152, 153, 154], [], [],
   [55, 56, 57, 58, 59, 63, 66, 67, 68, 69, 70, 71, 72, 91, 92, 93, 94, 95, 96, 97, 98, 99, 100,
   101, 102, 103, 104, 105, 106, 107, 108, 109, 117, 118], [55, 56, 57, 58, 59, 63, 66, 67, 68,
   69, 70, 71, 72, 91, 92, 93, 94, 95, 96, 97, 98, 99, 100, 101, 102, 103, 104, 105, 106, 107,
   108, 109, 117, 118], [], [], [], [], [], [], [], [], [], [], [], []],
   [[], [3, 4, 5, 6, 7, 8, 9, 10, 11, 12, 13, 14, 15, 16, 17, 18, 19, 20, 21, 22, 23, 24, 25, 26,
    27, 28, 29, 30, 31, 32, 33, 34, 37, 38, 39, 40, 60, 73, 74, 78, 90, 152, 153, 154], [],
    [155, 156], [], [], [], [], [], [], [], [], [], [], [], [], []],
   [[], [], [], [], [], [], [], [], [], [], [], [], [], [], [], [55, 56, 57, 58, 59, 63, 66, 67,
    68, 69, 70, 71, 72, 91, 92, 93, 94, 95, 96, 97, 98, 99, 100, 101, 102, 103, 104, 105, 117,
    118], []],
   [[], [], [], [], [], [], [], [], [], [55, 56, 57, 58, 59, 63, 66, 67, 68, 69, 70, 71, 72, 91,
    92, 93, 94, 95, 96, 97, 98, 117, 118], [110, 111, 112, 113, 114, 115, 116], [], [], [], [],
    [], []],
   [[110, 111, 112, 113, 114, 115, 116], [], [], [], [], [], [], [], [], [], [], [], [], [], [],
    [], []],
   [[], [], [], [], [], [64, 65], [], [], [], [], [], [], [55, 56, 57, 58, 59, 63, 66, 67, 68, 69,
    70, 71, 72, 91, 92, 93, 94, 95, 96, 97, 98, 99, 100, 101, 102, 103, 104, 105, 117, 118], [],
    [117, 118], [55, 56, 57, 58, 59, 63, 66, 67, 68, 69, 70, 71, 72, 91, 92, 93, 94, 95, 96, 97,
    98, 117, 118], [55, 56, 57, 58, 59, 63, 66, 67, 68, 69, 70, 71, 72, 91, 92, 93, 94, 95, 96,
    97, 98, 117, 118]],
   [[], [55, 56, 57, 58, 59, 63, 66, 67, 68, 69, 70, 71, 72, 91, 92, 93, 94, 95, 96, 97, 98, 99,
    100, 101, 102, 117, 118], [55, 56, 57, 58, 59, 63, 66, 67, 68, 69, 70, 71, 72, 91, 92, 93, 94,
    95, 96, 97, 98, 99, 100, 101, 102, 117, 118], [], [121, 124, 125, 126], [], [131, 132], [77],
    [66, 67, 68, 69, 70, 71, 72], [], [117, 118, 119, 120], [78], [43, 44, 45, 46, 47, 48], [],
    [], [], []],
   [[66, 67, 68, 69, 70, 71, 72], [], [], [], [110, 111, 112, 113, 114, 115, 116], [], [], [],
    [110, 111, 112, 113, 114, 115, 116], [110, 111, 112, 113, 114, 115, 116], [], [], [], [], [],
    [110, 111, 112, 113, 114, 115, 116], []],
   [[], [], [127, 128], [122, 123], [63], [55, 56, 57, 58, 59, 63, 66, 67, 68, 69, 70, 71, 72, 91,
    92, 93, 94, 95, 96, 97, 98, 99, 100, 101, 102, 103, 104, 105, 117, 118, 133, 134, 135, 136,
    137, 138, 139, 140, 141, 142, 143], [], [], [75, 76], [], [], [], [], [],
    [50, 51, 52, 53, 54], [41, 42], []],
   [[], [], [64, 65], [], [], [], [], [], [110, 111, 112, 113, 114, 115, 116], [], [], [], [], [],
    [], [], []],
   [[131, 132], [124, 125, 126], [], [66, 67, 68, 69, 70, 71, 72], [61, 62], [], [55, 56, 57, 58,
    59, 63, 66, 67, 68, 69, 70, 71, 72, 91, 92, 93, 94, 95, 96, 97, 98, 99, 100, 101, 102, 103,
    104, 105, 117, 118], [144, 145, 146, 147, 148, 149, 150, 151], [], [], [55, 56, 57, 58, 59,
    63, 66, 67, 68, 69, 70, 71, 72, 91, 92, 93, 94, 95, 96, 97, 98, 99, 100, 101, 102, 103, 104,
    105, 117, 118], [77], [131, 132], [], [117, 118, 119, 120], [], []],
   [[], [], [], [], [], [43, 44, 45, 46, 47, 48], [], [], [], [],
    [110, 111, 112, 113, 114, 115, 116], [110, 111, 112, 113, 114, 115, 116],
    [110, 111, 112, 113, 114, 115, 116], [], [], [124, 125, 126], [79, 80]],
   [[122, 123], [64, 65], [63], [], [55, 56, 57, 58, 59, 63, 66, 67, 68, 69, 70, 71, 72, 91, 92,
    93, 94, 95, 96, 97, 98, 99, 100, 101, 102, 103, 104, 105, 117, 118], [], [], [], [], [55, 56,
    57, 58, 59, 63, 66, 67, 68, 69, 70, 71, 72, 91, 92, 93, 94, 95, 96, 97, 98, 99, 100, 101, 102,
    103, 104, 105, 117, 118], [], [], [], [], [], [], [55, 56, 57, 58, 59, 63, 66, 67, 68, 69, 70,
    71, 72, 91, 92, 93, 94, 95, 96, 97, 98, 99, 100, 101, 102, 103, 104, 105, 117, 118]],
   [[55, 56, 57, 58, 59, 63, 66, 67, 68, 69, 70, 71, 72, 91, 92, 93, 94, 95, 96, 97, 98, 99, 100,
    101, 102, 103, 104, 105, 117, 118, 133, 134, 135, 136, 137, 138, 139, 140, 141, 142, 143],
    [55, 56, 57, 58, 59, 63, 66, 67, 68, 69, 70, 71, 72, 91, 92, 93, 94, 95, 96, 97, 98, 99, 100,
    101, 102, 103, 104, 105, 117, 118, 133, 134, 135, 136, 137, 138, 139, 140, 141, 142, 143], [],
    [75, 76], [], [], [], [78], [], [49], [], [41, 42], [], [35, 36], [], [], []],
   [[], [129, 130], [], [81, 82], [], [61, 62], [], [], [], [], [55, 56, 57, 58, 59, 63, 66, 67,
    68, 69, 70, 71, 72, 91, 92, 93, 94, 95, 96, 97, 98, 99, 100, 101, 102, 103, 104, 105, 117,
    118], [], [], [], [], [], []],
   [[], [], [], [], [], [], [], [35, 36], [55, 56, 57, 58, 59, 63, 66, 67, 68, 69, 70, 71, 72, 91,
    92, 93, 94, 95, 96, 97, 98, 99, 100, 101, 102, 103, 104, 105, 117, 118, 133, 134, 135, 136,
    137, 138, 139, 140, 141, 142, 143], [127, 128], [117, 118, 119, 120], [55, 56, 57, 58, 59, 63,
    66, 67, 68, 69, 70, 71, 72, 91, 92, 93, 94, 95, 96, 97, 98, 99, 100, 101, 102, 103, 104, 105,
    117, 118, 133, 134, 135, 136, 137, 138, 139, 140, 141, 142, 143], [83, 84], [], [], [], []],
   [[35, 36], [], [], [], [], [], [], [], [], [], [], [], [], [85, 86, 87, 88, 89, 117, 118], [],
    [], []],
   [[], [85, 86, 87, 88, 89, 117, 118], [], [], []]]

/-- Weights of the symbols and of the states: a reduction makes the stack lighter. -/
def symbolWeight : List (List ℕ) :=
  [[9, 9, 9, 9, 9, 9, 9, 9, 9, 9, 9, 9, 9, 9, 9, 9, 9],
   [9, 9, 9, 9, 9, 9, 9, 9, 9, 9, 9, 9, 9, 9, 9, 9, 9],
   [9, 9, 9, 9, 9, 9, 9, 9, 9, 9, 9, 9, 9, 9, 9, 9, 9],
   [9, 9, 9, 9, 9, 9, 9, 9, 9, 9, 9, 9, 9, 9, 9, 9, 9],
   [9, 9, 9, 9, 9, 9, 9, 9, 9, 9, 9, 0, 0, 1, 3, 3, 3],
   [3, 3, 3, 3, 3, 3, 3, 0, 3, 3, 3, 0, 0, 0, 0, 0, 3],
   [0, 5, 0, 5, 3, 3, 0, 0, 3, 0, 0, 0, 0, 1, 3, 5, 4],
   [3, 1, 0, 0, 5, 0, 0, 0, 6, 0, 0, 0, 0, 1, 0, 3, 3],
   [3, 0]]

def stateWeight : List (List ℕ) :=
  [[0, 0, 0, 0, 0, 0, 0, 0, 0, 0, 0, 0, 0, 0, 0, 0, 0],
   [0, 0, 0, 1, 0, 0, 0, 0, 0, 0, 0, 0, 0, 0, 0, 0, 0],
   [0, 0, 0, 0, 0, 0, 0, 0, 0, 0, 0, 0, 0, 0, 0, 0, 0],
   [0, 0, 0, 0, 0, 0, 0, 0, 0, 0, 1, 0, 0, 0, 0, 0, 0],
   [1, 0, 0, 0, 0, 0, 0, 0, 0, 0, 0, 0, 0, 0, 0, 0, 0],
   [0, 0, 0, 0, 0, 1, 0, 0, 0, 0, 0, 0, 0, 0, 0, 0, 0],
   [0, 0, 0, 0, 0, 0, 1, 0, 0, 0, 0, 0, 0, 0, 0, 0, 0],
   [0, 0, 0, 0, 1, 0, 0, 0, 1, 1, 0, 0, 0, 0, 0, 1, 0],
   [0, 0, 5, 1, 0, 1, 0, 0, 2, 0, 0, 0, 0, 0, 0, 1, 0],
   [0, 0, 1, 0, 0, 0, 0, 0, 1, 0, 0, 0, 0, 0, 0, 0, 0],
   [4, 0, 0, 0, 1, 0, 0, 0, 0, 0, 0, 0, 1, 0, 0, 0, 0],
   [0, 0, 0, 0, 0, 0, 0, 0, 0, 0, 1, 1, 1, 0, 0, 0, 3],
   [1, 1, 0, 0, 0, 0, 0, 0, 0, 0, 0, 0, 0, 0, 0, 0, 0],
   [1, 1, 0, 1, 0, 0, 0, 0, 0, 0, 0, 1, 0, 1, 0, 0, 0],
   [0, 2, 0, 2, 0, 1, 0, 0, 0, 0, 0, 0, 0, 0, 0, 0, 0],
   [0, 0, 0, 0, 0, 0, 0, 1, 1, 1, 0, 1, 1, 0, 0, 0, 0],
   [1, 0, 0, 0, 0, 0, 0, 0, 0, 0, 0, 0, 0, 0, 0, 0, 0],
   [0, 0, 0, 0, 0]]

def sqlCertificate : Certificate where
  rules := grammar
  symbol := entry yystos 0
  itemsOf := entry items []
  predictedIn := entry predicted []
  weight := entry symbolWeight 0
  rankOf := entry stateWeight 0
  tokenWeight := 11

theorem grammar_eq :
    grammar = (0, []) :: rules.map fun r => (r.lhs.ctorIdx, r.rhs.map Symbol.ctorIdx) := by
  decide +kernel

theorem length_yypact : sqlTables.yypact.length = 294 := by decide +kernel

theorem entry_of_le {A : Type} {pieces : List (List A)} (default : A) {state : ℕ}
    (hcount : pieces.length = 18) (hlast : (pieces.getD 17 []).length = 5)
    (hstate : sqlTables.yypact.length ≤ state) : entry pieces default state = default := by
  rw [length_yypact] at hstate
  unfold entry
  by_cases hpiece : state / 17 = 17
  · rw [hpiece]
    exact List.getD_eq_default _ _ (by omega)
  · rw [List.getD_eq_default pieces [] (by omega)]
    exact List.getD_nil

def checkStates (first count : ℕ) : Bool :=
  (List.range' first count).all (sqlTables.checkState sqlCertificate)

theorem checkState_of_checkStates {first count p : ℕ} (h : checkStates first count = true)
    (hfirst : first ≤ p) (hlast : p < first + count) :
    sqlTables.checkState sqlCertificate p = true := by
  unfold checkStates at h
  rw [List.all_eq_true] at h
  exact h p (List.mem_range'_1.mpr ⟨hfirst, hlast⟩)

theorem sqlTables_fit : sqlTables.Fits sqlCertificate := by
  have htables : sqlTables.check sqlCertificate = true := by decide +kernel
  -- the states are checked a few at a time
  have h0 : checkStates 0 42 = true := by decide +kernel
  have h42 : checkStates 42 42 = true := by decide +kernel
  have h84 : checkStates 84 42 = true := by decide +kernel
  have h126 : checkStates 126 42 = true := by decide +kernel
  have h168 : checkStates 168 42 = true := by decide +kernel
  have h210 : checkStates 210 42 = true := by decide +kernel
  have h252 : checkStates 252 42 = true := by decide +kernel
  apply Tables.fits_of_check htables fun p hp =>
    entry_of_le [] (by decide +kernel) (by decide +kernel) hp
  intro p hp
  rw [length_yypact] at hp
  by_cases hp0 : p < 42
  · exact checkState_of_checkStates h0 (by omega) (by omega)
  by_cases hp42 : p < 84
  · exact checkState_of_checkStates h42 (by omega) (by omega)
  by_cases hp84 : p < 126
  · exact checkState_of_checkStates h84 (by omega) (by omega)
  by_cases hp126 : p < 168
  · exact checkState_of_checkStates h126 (by omega) (by omega)
  by_cases hp168 : p < 210
  · exact checkState_of_checkStates h168 (by omega) (by omega)
  by_cases hp210 : p < 252
  · exact checkState_of_checkStates h210 (by omega) (by omega)
  exact checkState_of_checkStates h252 (by omega) (by omega)

end TDB.Sql

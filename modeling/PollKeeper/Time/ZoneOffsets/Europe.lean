import PollKeeper.Time.OffsetHistory

/-!
# Offsets of zones in Europe
-/

namespace PollKeeper.Time.ZoneOffsets

open OffsetHistory

def berlin : OffsetHistory where
  first := 3208
  changes :=
    alternating 3600 7200
      [-2422054408, -1693706400, -1680483600, -1663455600, -1650150000, -1632006000, -1618700400,
       -938905200, -857257200, -844556400, -828226800, -812502000, -796777200, -781052400] ++
    alternating 10800 7200 [-776563200, -765936000] ++
    alternating 3600 7200 [-761180400, -748479600, -733273200, -717631200] ++
    alternating 10800 7200 [-714610800, -710380800] ++
    alternating 3600 7200
      [-701910000, -684975600, -670460400, -654130800, -639010800, 323830800, 338950800,
       354675600, 370400400, 386125200, 401850000, 417574800, 433299600, 449024400, 465354000,
       481078800, 496803600, 512528400, 528253200, 543978000, 559702800, 575427600, 591152400,
       606877200, 622602000, 638326800, 654656400, 670381200, 686106000, 701830800, 717555600,
       733280400, 749005200, 764730000, 780454800, 796179600, 811904400, 828234000, 846378000,
       859683600, 877827600, 891133200, 909277200, 922582800, 941331600, 954032400, 972781200,
       985482000, 1004230800, 1017536400, 1035680400, 1048986000, 1067130000, 1080435600,
       1099184400, 1111885200, 1130634000, 1143334800, 1162083600, 1174784400, 1193533200,
       1206838800, 1224982800, 1238288400, 1256432400, 1269738000, 1288486800, 1301187600,
       1319936400, 1332637200, 1351386000, 1364691600, 1382835600, 1396141200, 1414285200,
       1427590800, 1445734800, 1459040400, 1477789200, 1490490000, 1509238800, 1521939600,
       1540688400, 1553994000, 1572138000, 1585443600, 1603587600, 1616893200, 1635642000,
       1648342800, 1667091600, 1679792400, 1698541200, 1711846800, 1729990800, 1743296400,
       1761440400, 1774746000, 1792890000, 1806195600, 1824944400, 1837645200, 1856394000,
       1869094800, 1887843600, 1901149200, 1919293200, 1932598800, 1950742800, 1964048400,
       1982797200, 1995498000, 2014246800, 2026947600, 2045696400, 2058397200, 2077146000,
       2090451600, 2108595600, 2121901200, 2140045200, 2153350800, 2172099600, 2184800400,
       2203549200, 2216250000, 2234998800, 2248304400, 2266448400, 2279754000, 2297898000,
       2311203600, 2329347600, 2342653200, 2361402000, 2374102800, 2392851600, 2405552400,
       2424301200, 2437606800, 2455750800, 2469056400, 2487200400, 2500506000, 2519254800,
       2531955600, 2550704400, 2563405200, 2582154000, 2595459600, 2613603600, 2626909200,
       2645053200, 2658358800, 2676502800, 2689808400, 2708557200, 2721258000, 2740006800,
       2752707600, 2771456400, 2784762000, 2802906000, 2816211600, 2834355600, 2847661200,
       2866410000, 2879110800, 2897859600, 2910560400, 2929309200, 2942010000, 2960758800,
       2974064400, 2992208400, 3005514000, 3023658000, 3036963600, 3055712400, 3068413200,
       3087162000, 3099862800, 3118611600, 3131917200, 3150061200, 3163366800, 3181510800,
       3194816400, 3212960400, 3226266000, 3245014800, 3257715600, 3276464400, 3289165200,
       3307914000, 3321219600, 3339363600, 3352669200, 3370813200, 3384118800, 3402867600,
       3415568400, 3434317200, 3447018000, 3465766800, 3479072400, 3497216400, 3510522000,
       3528666000, 3541971600, 3560115600, 3573421200, 3592170000, 3604870800, 3623619600,
       3636320400, 3655069200, 3668374800, 3686518800, 3699824400, 3717968400, 3731274000,
       3750022800, 3762723600, 3781472400, 3794173200, 3812922000, 3825622800, 3844371600,
       3857677200, 3875821200, 3889126800, 3907270800, 3920576400, 3939325200, 3952026000,
       3970774800, 3983475600, 4002224400, 4015530000, 4033674000, 4046979600, 4065123600,
       4078429200, 4096573200]

def london : OffsetHistory where
  first := -75
  changes :=
    alternating 0 3600
      [-3852662325, -1691964000, -1680472800, -1664143200, -1650146400, -1633903200, -1617487200,
       -1601848800, -1586037600, -1570399200, -1552168800, -1538344800, -1522533600, -1507500000,
       -1490565600, -1473631200, -1460930400, -1442786400, -1428876000, -1410732000, -1396216800,
       -1379282400, -1364767200, -1348437600, -1333317600, -1315778400, -1301263200, -1284328800,
       -1269813600, -1253484000, -1238364000, -1221429600, -1206914400, -1189980000, -1175464800,
       -1159135200, -1143410400, -1126476000, -1111960800, -1095631200, -1080511200, -1063576800,
       -1049061600, -1032127200, -1017612000, -1001282400, -986162400, -969228000, -950479200,
       -942012000] ++
    alternating 7200 3600
      [-904518000, -896050800, -875487600, -864601200, -844038000, -832546800, -812588400,
       -798073200, -781052400, -772066800] ++
    alternating 0 3600 [-764805600, -748476000, -733356000, -719445600] ++
    alternating 7200 3600 [-717030000, -706748400] ++
    alternating 0 3600
      [-699487200, -687996000, -668037600, -654732000, -636588000, -622072800, -605743200,
       -590623200, -574293600, -558568800, -542239200, -527119200, -512604000, -496274400,
       -481154400, -464220000, -449704800, -432165600, -417650400, -401320800, -386200800,
       -369266400, -354751200, -337816800, -323301600, -306972000, -291852000, -276732000,
       -257983200, -245282400, -226533600, -213228000, -195084000, -182383200, -163634400,
       -150933600, -132184800, -119484000, -100735200, -88034400, -68680800, -59004000, 57722400,
       69818400, 89172000, 101268000, 120621600, 132717600, 152071200, 164167200, 183520800,
       196221600, 214970400, 227671200, 246420000, 259120800, 278474400, 290570400, 309924000,
       322020000, 341373600, 354675600, 372819600, 386125200, 404269200, 417574800, 435718800,
       449024400, 467773200, 481078800, 499222800, 512528400, 530672400, 543978000, 562122000,
       575427600, 593571600, 606877200, 625626000, 638326800, 657075600, 670381200, 688525200,
       701830800, 719974800, 733280400, 751424400, 764730000, 782874000, 796179600, 814323600,
       828234000, 846378000, 859683600, 877827600, 891133200, 909277200, 922582800, 941331600,
       954032400, 972781200, 985482000, 1004230800, 1017536400, 1035680400, 1048986000,
       1067130000, 1080435600, 1099184400, 1111885200, 1130634000, 1143334800, 1162083600,
       1174784400, 1193533200, 1206838800, 1224982800, 1238288400, 1256432400, 1269738000,
       1288486800, 1301187600, 1319936400, 1332637200, 1351386000, 1364691600, 1382835600,
       1396141200, 1414285200, 1427590800, 1445734800, 1459040400, 1477789200, 1490490000,
       1509238800, 1521939600, 1540688400, 1553994000, 1572138000, 1585443600, 1603587600,
       1616893200, 1635642000, 1648342800, 1667091600, 1679792400, 1698541200, 1711846800,
       1729990800, 1743296400, 1761440400, 1774746000, 1792890000, 1806195600, 1824944400,
       1837645200, 1856394000, 1869094800, 1887843600, 1901149200, 1919293200, 1932598800,
       1950742800, 1964048400, 1982797200, 1995498000, 2014246800, 2026947600, 2045696400,
       2058397200, 2077146000, 2090451600, 2108595600, 2121901200, 2140045200, 2153350800,
       2172099600, 2184800400, 2203549200, 2216250000, 2234998800, 2248304400, 2266448400,
       2279754000, 2297898000, 2311203600, 2329347600, 2342653200, 2361402000, 2374102800,
       2392851600, 2405552400, 2424301200, 2437606800, 2455750800, 2469056400, 2487200400,
       2500506000, 2519254800, 2531955600, 2550704400, 2563405200, 2582154000, 2595459600,
       2613603600, 2626909200, 2645053200, 2658358800, 2676502800, 2689808400, 2708557200,
       2721258000, 2740006800, 2752707600, 2771456400, 2784762000, 2802906000, 2816211600,
       2834355600, 2847661200, 2866410000, 2879110800, 2897859600, 2910560400, 2929309200,
       2942010000, 2960758800, 2974064400, 2992208400, 3005514000, 3023658000, 3036963600,
       3055712400, 3068413200, 3087162000, 3099862800, 3118611600, 3131917200, 3150061200,
       3163366800, 3181510800, 3194816400, 3212960400, 3226266000, 3245014800, 3257715600,
       3276464400, 3289165200, 3307914000, 3321219600, 3339363600, 3352669200, 3370813200,
       3384118800, 3402867600, 3415568400, 3434317200, 3447018000, 3465766800, 3479072400,
       3497216400, 3510522000, 3528666000, 3541971600, 3560115600, 3573421200, 3592170000,
       3604870800, 3623619600, 3636320400, 3655069200, 3668374800, 3686518800, 3699824400,
       3717968400, 3731274000, 3750022800, 3762723600, 3781472400, 3794173200, 3812922000,
       3825622800, 3844371600, 3857677200, 3875821200, 3889126800, 3907270800, 3920576400,
       3939325200, 3952026000, 3970774800, 3983475600, 4002224400, 4015530000, 4033674000,
       4046979600, 4065123600, 4078429200, 4096573200]

end PollKeeper.Time.ZoneOffsets
